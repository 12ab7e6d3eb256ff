import UvgTorrent.Foundations.FallibleRuns

/-! One party that sends requests and others that answer them, over a network that keeps every
message: it may come late, in any order, more than once or never.
-/

namespace Foundations

variable {ε σ ι κ α ρ β γ : Type}

/-- What the parties do. The asker's state is `σ`; a request `κ` is sent for an `ι`, answered by an
`α`, and its reply `ρ` is taken in circumstances `β`.
-/
structure RequestReply (ε σ ι κ α ρ β : Type) where
  ask : σ → ι → Except ε κ
  answer : κ → α → Except ε (Option ρ)
  take : σ → ρ → β → Except ε σ

/-- The asker, and the messages that were sent. -/
structure RequestNetwork (σ κ ρ : Type) where
  asker : σ
  requests : List κ
  replies : List ρ

/-- A step of one of the parties. -/
inductive RequestAction (ι κ α ρ β : Type) where
  | ask (item : ι)
  | answer (request : κ) (answerer : α)
  | take (reply : ρ) (circumstances : β)

namespace RequestReply

variable (protocol : RequestReply ε σ ι κ α ρ β)

def step (network : RequestNetwork σ κ ρ)
    : RequestAction ι κ α ρ β → Except ε (RequestNetwork σ κ ρ)
  | .ask item =>
      (protocol.ask network.asker item).bind fun request =>
        .ok { network with requests := network.requests ++ [request] }
  | .answer request answerer =>
      (protocol.answer request answerer).bind fun reply =>
        .ok { network with replies := network.replies ++ reply.toList }
  | .take reply circumstances =>
      (protocol.take network.asker reply circumstances).bind fun asker =>
        .ok { network with asker }

/-- Only messages that were sent arrive. -/
def Allowed (asks : ι → Prop) (answers : α → Prop) (takes : β → Prop)
    (network : RequestNetwork σ κ ρ)
    : RequestAction ι κ α ρ β → Prop
  | .ask item => asks item
  | .answer request answerer => request ∈ network.requests ∧ answers answerer
  | .take reply circumstances => reply ∈ network.replies ∧ takes circumstances

/-- A reply about a subject is taken in a run. -/
def TakenIn (validReply : γ → ρ → Prop) (actions : List (RequestAction ι κ α ρ β)) (about : γ)
    : Prop :=
  ∃ reply circumstances, .take reply circumstances ∈ actions ∧ validReply about reply

/-- What each step of a party has to preserve, where every message is about a subject: the asker's
invariant, the validity of the messages for their subjects, and what was done for a subject.
-/
structure Sound (subject : ι → γ) (asks : ι → Prop) (answers : α → Prop) (takes : β → Prop)
    (invariant : σ → Prop) (validRequest : γ → κ → Prop) (validReply : γ → ρ → Prop)
    (done : γ → σ → Prop)
    : Prop where
  asked
    : ∀ {state item},
        invariant state
        → asks item
        → ∃ request, protocol.ask state item = .ok request ∧ validRequest (subject item) request
  answered
    : ∀ {about request answerer},
        validRequest about request
        → answers answerer
        → ∃ reply, protocol.answer request answerer = .ok (some reply) ∧ validReply about reply
  taken
    : ∀ {about state reply circumstances},
        invariant state
        → validReply about reply
        → takes circumstances
        → ∃ next,
            protocol.take state reply circumstances = .ok next
              ∧ invariant next
              ∧ done about next
              ∧ ∀ other, done other state → done other next

/-- The invariant of the asker and the validity of all messages. -/
structure Consistent (invariant : σ → Prop) (validRequest : γ → κ → Prop)
    (validReply : γ → ρ → Prop) (network : RequestNetwork σ κ ρ)
    : Prop where
  asker : invariant network.asker
  requests : ∀ request ∈ network.requests, ∃ about, validRequest about request
  replies : ∀ reply ∈ network.replies, ∃ about, validReply about reply

variable {protocol} {subject : ι → γ} {asks : ι → Prop} {answers : α → Prop} {takes : β → Prop}
  {invariant : σ → Prop} {validRequest : γ → κ → Prop} {validReply : γ → ρ → Prop}
  {done : γ → σ → Prop} {network : RequestNetwork σ κ ρ} {action : RequestAction ι κ α ρ β}
  {actions more : List (RequestAction ι κ α ρ β)} {about : γ}

theorem step_ask {item : ι} {request : κ} (asked : protocol.ask network.asker item = .ok request)
    : protocol.step network (.ask item)
      = .ok { network with requests := network.requests ++ [request] } :=
  bind_of_ok asked _

theorem step_answer {request : κ} {answerer : α} {reply : ρ}
    (answered : protocol.answer request answerer = .ok (some reply))
    : protocol.step network (.answer request answerer)
      = .ok { network with replies := network.replies ++ [reply] } :=
  bind_of_ok answered _

theorem step_take {reply : ρ} {circumstances : β} {asker : σ}
    (taken : protocol.take network.asker reply circumstances = .ok asker)
    : protocol.step network (.take reply circumstances) = .ok { network with asker } :=
  bind_of_ok taken _

/-- A step returns, keeps the network consistent and undoes nothing. -/
theorem Sound.step
    (sound
      : protocol.Sound subject asks answers takes invariant validRequest validReply done)
    (consistent : Consistent invariant validRequest validReply network)
    (allowed : Allowed asks answers takes network action)
    : ∃ next,
        protocol.step network action = .ok next
          ∧ Consistent invariant validRequest validReply next
          ∧ (∀ about reply circumstances,
              action = .take reply circumstances → validReply about reply → done about next.asker)
          ∧ ∀ about, done about network.asker → done about next.asker := by
  obtain ⟨inv, requests, replies⟩ := consistent
  cases action with
  | ask item =>
      obtain ⟨request, asked, valid⟩ := sound.asked inv allowed
      refine ⟨_, step_ask asked, ⟨inv, ?_, replies⟩, nofun, fun _ kept => kept⟩
      intro other member
      rcases List.mem_append.mp member with before | new
      · exact requests other before
      · rw [List.mem_singleton.mp new]
        exact ⟨subject item, valid⟩
  | answer request answerer =>
      obtain ⟨about, asked⟩ := requests request allowed.1
      obtain ⟨reply, answered, valid⟩ := sound.answered asked allowed.2
      refine ⟨_, step_answer answered, ⟨inv, requests, ?_⟩, nofun, fun _ kept => kept⟩
      intro other member
      rcases List.mem_append.mp member with before | new
      · exact replies other before
      · rw [List.mem_singleton.mp new]
        exact ⟨about, valid⟩
  | take reply circumstances =>
      obtain ⟨about, valid⟩ := replies reply allowed.1
      obtain ⟨next, taken, kept, _, undoes⟩ := sound.taken inv valid allowed.2
      refine ⟨_, step_take taken, ⟨kept, requests, replies⟩, ?_, undoes⟩
      rintro other _ _ ⟨⟩ alsoValid
      obtain ⟨same, takenAgain, _, does, _⟩ := sound.taken inv alsoValid allowed.2
      obtain rfl : next = same := Except.ok.inj (taken.symm.trans takenAgain)
      exact does

theorem TakenIn.append_right (taken : TakenIn validReply actions about)
    : TakenIn validReply (actions ++ more) about := by
  obtain ⟨reply, circumstances, member, valid⟩ := taken
  exact ⟨reply, circumstances, List.mem_append_left more member, valid⟩

theorem TakenIn.append_left (taken : TakenIn validReply more about)
    : TakenIn validReply (actions ++ more) about := by
  obtain ⟨reply, circumstances, member, valid⟩ := taken
  exact ⟨reply, circumstances, List.mem_append_right actions member, valid⟩

/-- Whatever the network does, a run returns in a consistent state, with everything done that the
replies it took are about. Induction on the steps.
-/
theorem Sound.run
    (sound
      : protocol.Sound subject asks answers takes invariant validRequest validReply done)
    (consistent : Consistent invariant validRequest validReply network)
    (allowed : Guarded protocol.step (Allowed asks answers takes) network actions)
    : ∃ final,
        runSteps protocol.step network actions = .ok final
          ∧ Consistent invariant validRequest validReply final
          ∧ (∀ about, TakenIn validReply actions about → done about final.asker)
          ∧ ∀ about, done about network.asker → done about final.asker := by
  induction actions generalizing network with
  | nil => exact ⟨network, rfl, consistent, nofun, fun _ kept => kept⟩
  | cons action rest ih =>
      obtain ⟨next, stepped, kept, does, undoes⟩ := sound.step consistent allowed.1
      obtain ⟨final, ran, ended, doneLater, kept⟩ := ih kept (allowed.2 next stepped)
      refine ⟨final, runSteps_cons_eq_ok.mpr ⟨next, stepped, ran⟩, ended, ?_, ?_⟩
      · rintro about ⟨reply, circumstances, member, valid⟩
        rcases List.mem_cons.mp member with same | later
        · exact kept about (does about reply circumstances same.symm valid)
        · exact doneLater about ⟨reply, circumstances, later, valid⟩
      · exact fun about before => kept about (undoes about before)

/-- A guarded run behind another one. -/
theorem guarded_append {step : σ → α → Except ε σ} {guard : σ → α → Prop} {state : σ}
    {first rest : List α} (guarded : Guarded step guard state first)
    (later : ∀ next, runSteps step state first = .ok next → Guarded step guard next rest)
    : Guarded step guard state (first ++ rest) := by
  induction first generalizing state with
  | nil => exact later state rfl
  | cons operation first ih =>
      refine ⟨guarded.1, fun next stepped => ih (guarded.2 next stepped) ?_⟩
      exact fun final ran => later final (runSteps_cons_eq_ok.mpr ⟨next, stepped, ran⟩)

/-- A reply about any subject can be taken in every consistent state: ask, have the request
answered, and take the reply.
-/
theorem Sound.serves
    (sound
      : protocol.Sound subject asks answers takes invariant validRequest validReply done)
    (consistent : Consistent invariant validRequest validReply network) {item : ι} {answerer : α}
    {circumstances : β} (asked : asks item) (answered : answers answerer)
    (taken : takes circumstances)
    : ∃ actions final,
        Guarded protocol.step (Allowed asks answers takes) network actions
          ∧ runSteps protocol.step network actions = .ok final
          ∧ Consistent invariant validRequest validReply final
          ∧ TakenIn validReply actions (subject item) := by
  obtain ⟨request, sent, validRequested⟩ := sound.asked consistent.asker asked
  obtain ⟨reply, served, validReplied⟩ := sound.answered validRequested answered
  obtain ⟨next, took, kept, _, _⟩ := sound.taken consistent.asker validReplied taken
  let asking : RequestNetwork σ κ ρ := { network with requests := network.requests ++ [request] }
  let replied : RequestNetwork σ κ ρ := { asking with replies := network.replies ++ [reply] }
  let final : RequestNetwork σ κ ρ := { replied with asker := next }
  have first : protocol.step network (.ask item) = .ok asking := step_ask sent
  have second : protocol.step asking (.answer request answerer) = .ok replied :=
    step_answer served
  have third : protocol.step replied (.take reply circumstances) = .ok final := step_take took
  refine ⟨[.ask item, .answer request answerer, .take reply circumstances], final, ?_, ?_,
    ⟨kept, ?_, ?_⟩, reply, circumstances, by simp, validReplied⟩
  · refine ⟨asked, fun _ stepped => ?_⟩
    rw [first] at stepped
    cases stepped
    refine ⟨⟨List.mem_append_right _ (List.mem_singleton_self _), answered⟩, fun _ stepped => ?_⟩
    rw [second] at stepped
    cases stepped
    exact ⟨⟨List.mem_append_right _ (List.mem_singleton_self _), taken⟩, fun _ _ => trivial⟩
  · exact runSteps_cons_eq_ok.mpr ⟨_, first, runSteps_cons_eq_ok.mpr ⟨_, second,
      runSteps_cons_eq_ok.mpr ⟨_, third, rfl⟩⟩⟩
  · intro other member
    rcases List.mem_append.mp member with before | new
    · exact consistent.requests other before
    · rw [List.mem_singleton.mp new]
      exact ⟨_, validRequested⟩
  · intro other member
    rcases List.mem_append.mp member with before | new
    · exact consistent.replies other before
    · rw [List.mem_singleton.mp new]
      exact ⟨_, validReplied⟩

/-- So can replies about any number of subjects, one behind the other. Induction on the items. -/
theorem Sound.completes
    (sound
      : protocol.Sound subject asks answers takes invariant validRequest validReply done)
    (consistent : Consistent invariant validRequest validReply network) {items : List ι}
    {answerer : α} {circumstances : β} (asked : ∀ item ∈ items, asks item)
    (answered : answers answerer) (taken : takes circumstances)
    : ∃ actions final,
        Guarded protocol.step (Allowed asks answers takes) network actions
          ∧ runSteps protocol.step network actions = .ok final
          ∧ ∀ item ∈ items, TakenIn validReply actions (subject item) := by
  induction items generalizing network with
  | nil => exact ⟨[], network, trivial, rfl, nofun⟩
  | cons item rest ih =>
      obtain ⟨first, next, guarded, ran, kept, takenFirst⟩ :=
        sound.serves consistent (asked item List.mem_cons_self) answered taken
      obtain ⟨later, final, guardedLater, ranLater, takenLater⟩ :=
        ih kept (fun other member => asked other (List.mem_cons_of_mem item member))
      refine ⟨first ++ later, final, ?_, runSteps_append ran ranLater, ?_⟩
      · apply guarded_append guarded
        intro reached ranAgain
        obtain rfl : next = reached := Except.ok.inj (ran.symm.trans ranAgain)
        exact guardedLater
      · intro other member
        rcases List.mem_cons.mp member with rfl | member
        · exact takenFirst.append_right
        · exact (takenLater other member).append_left

end RequestReply

end Foundations
