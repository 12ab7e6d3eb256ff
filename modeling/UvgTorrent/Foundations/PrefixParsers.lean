import UvgTorrent.Foundations.FallibleRuns

/-! Parsers that take a value off the front of their input, and may fault where the input is cut
off. A parser is described by two sets of texts: those that it takes, and those on which it faults.
The descriptions of sequences and repetitions are put together from those of their parts.
-/

namespace Foundations

variable {α β γ ε : Type}

/-- A parser takes a value and leaves the rest of its input, or refuses, or faults. -/
abbrev PrefixParser (ε β α : Type) := List β → Except ε (Option (α × List β))

namespace PrefixParser

/-- On inputs that are not empty, the parser takes exactly the texts of one set, whatever stands
behind them, and faults exactly on the inputs of another. No text begins with a stop symbol.
-/
structure Describes (parser : PrefixParser ε β α) (fault : ε) (stop : β → Bool)
    (whole cut : List β → Prop)
    : Prop where
  begins
    : ∀ {text},
        whole text ∨ cut text → ∃ symbol rest, text = symbol :: rest ∧ stop symbol = false
  takes
    : ∀ {text},
        whole text → ∃ value, ∀ rest, parser (text ++ rest) = .ok (some (value, rest))
  took
    : ∀ {symbol input value rest},
        parser (symbol :: input) = .ok (some (value, rest))
        → ∃ text, whole text ∧ symbol :: input = text ++ rest
  faults
    : ∀ {symbol input other},
        parser (symbol :: input) = .error other ↔ other = fault ∧ cut (symbol :: input)

/-- A text of one set behind a text of another. -/
def Joined (first second : List β → Prop) (text : List β) : Prop :=
  ∃ front back, first front ∧ second back ∧ text = front ++ back

variable {parser : PrefixParser ε β α} {other : PrefixParser ε β γ}
  {fault outOfInput outOfTurns : ε} {stop otherStop : β → Bool}
  {whole cut otherWhole otherCut : List β → Prop}

/-- A text that is cut is an input on which the parser faults. -/
theorem Describes.faults_of_cut (described : parser.Describes fault stop whole cut)
    {text : List β} (isCut : cut text)
    : parser text = .error fault := by
  obtain ⟨symbol, rest, rfl, _⟩ := described.begins (.inr isCut)
  exact described.faults.mpr ⟨rfl, isCut⟩

/-- A description only depends on which texts are in its two sets. -/
theorem Describes.of_cut_iff {lateCut : List β → Prop}
    (described : parser.Describes fault stop whole cut) (same : ∀ text, lateCut text ↔ cut text)
    : parser.Describes fault stop whole lateCut := by
  have equal : lateCut = cut := funext fun text => propext (same text)
  rw [equal]
  exact described

-----------------------------------------------------------------------------------------
-- Values
-----------------------------------------------------------------------------------------

/-- A parser that makes something of the value it takes. -/
def mapValue (parser : PrefixParser ε β α) (make : α → γ) : PrefixParser ε β γ :=
  fun input =>
    (parser input).bind fun taken => .ok (taken.map fun (value, rest) => (make value, rest))

theorem mapValue_eq_some {make : α → γ} {input rest : List β} {made : γ}
    : parser.mapValue make input = .ok (some (made, rest))
      ↔ ∃ value, parser input = .ok (some (value, rest)) ∧ make value = made := by
  unfold mapValue
  constructor
  · intro took
    obtain ⟨taken, parsed, took⟩ := bind_eq_ok.mp took
    cases taken with
    | none => cases took
    | some taken =>
        cases took
        exact ⟨taken.1, parsed, rfl⟩
  · rintro ⟨value, parsed, rfl⟩
    exact bind_of_ok parsed _

theorem mapValue_eq_error {make : α → γ} {input : List β} {raised : ε}
    : parser.mapValue make input = .error raised ↔ parser input = .error raised := by
  unfold mapValue
  cases parser input <;> simp [Except.bind]

-----------------------------------------------------------------------------------------
-- Sequences
-----------------------------------------------------------------------------------------

/-- One parser behind another. -/
def pair (parser : PrefixParser ε β α) (other : PrefixParser ε β γ)
    : PrefixParser ε β (α × γ) :=
  fun input =>
    (parser input).bind fun
      | none => .ok none
      | some (value, rest) =>
          (other rest).bind fun taken =>
            .ok (taken.map fun (second, rest) => ((value, second), rest))

/-- A sequence takes two texts in a row, and faults where one of its parts does. -/
theorem Describes.pair (described : parser.Describes fault stop whole cut)
    (next : other.Describes fault otherStop otherWhole otherCut) (empty : other [] = .ok none)
    : (parser.pair other).Describes fault stop (Joined whole otherWhole)
        (fun text => cut text ∨ Joined whole otherCut text) := by
  constructor
  case begins =>
    have front {first second : List β} (isWhole : whole first)
        : ∃ symbol rest, first ++ second = symbol :: rest ∧ stop symbol = false := by
      obtain ⟨symbol, rest, rfl, goesOn⟩ := described.begins (.inl isWhole)
      exact ⟨symbol, rest ++ second, rfl, goesOn⟩
    rintro text (⟨first, second, isWhole, _, rfl⟩ | isCut | ⟨first, second, isWhole, _, rfl⟩)
    · exact front isWhole
    · exact described.begins (.inr isCut)
    · exact front isWhole
  case takes =>
    rintro text ⟨first, second, firstWhole, secondWhole, rfl⟩
    obtain ⟨value, takesFirst⟩ := described.takes firstWhole
    obtain ⟨later, takesSecond⟩ := next.takes secondWhole
    refine ⟨(value, later), fun rest => ?_⟩
    rw [List.append_assoc, PrefixParser.pair, bind_of_ok (takesFirst _)]
    dsimp only
    rw [bind_of_ok (takesSecond rest)]
    rfl
  case took =>
    intro symbol input value rest took
    obtain ⟨taken, tookFirst, took⟩ := bind_eq_ok.mp took
    cases taken with
    | none => cases took
    | some taken =>
        obtain ⟨first, left⟩ := taken
        obtain ⟨front, frontWhole, split⟩ := described.took tookFirst
        obtain ⟨later, tookSecond, took⟩ := bind_eq_ok.mp took
        cases later with
        | none => cases took
        | some later =>
            cases took
            cases left with
            | nil =>
                rw [empty] at tookSecond
                cases tookSecond
            | cons head left =>
                obtain ⟨back, backWhole, splitBack⟩ := next.took tookSecond
                refine ⟨front ++ back, ⟨front, back, frontWhole, backWhole, rfl⟩, ?_⟩
                rw [split, splitBack, List.append_assoc]
  case faults =>
    intro symbol input other
    constructor
    · intro faulted
      rcases bind_eq_error.mp faulted with faulted | ⟨taken, tookFirst, faulted⟩
      · obtain ⟨same, isCut⟩ := described.faults.mp faulted
        exact ⟨same, .inl isCut⟩
      · cases taken with
        | none => cases faulted
        | some taken =>
            obtain ⟨first, left⟩ := taken
            obtain ⟨front, frontWhole, split⟩ := described.took tookFirst
            rcases bind_eq_error.mp faulted with faulted | ⟨later, _, faulted⟩
            · cases left with
              | nil =>
                  rw [empty] at faulted
                  cases faulted
              | cons head left =>
                  obtain ⟨same, isCut⟩ := next.faults.mp faulted
                  exact ⟨same, .inr ⟨front, _, frontWhole, isCut, split⟩⟩
            · cases faulted
    · rintro ⟨rfl, isCut | ⟨front, back, frontWhole, backCut, split⟩⟩
      · exact bind_of_error (described.faults.mpr ⟨rfl, isCut⟩) _
      · obtain ⟨value, takesFirst⟩ := described.takes frontWhole
        rw [split, PrefixParser.pair, bind_of_ok (takesFirst back)]
        exact bind_of_error (next.faults_of_cut backCut) _

-----------------------------------------------------------------------------------------
-- Repetitions
-----------------------------------------------------------------------------------------

/-- Items up to a stop symbol. Input that ends behind an item is refused; the turns are bounded. -/
def many (item : PrefixParser ε β α) (stop : β → Bool) (outOfInput outOfTurns : ε)
    : Nat → PrefixParser ε β (List α)
  | 0, _ => .error outOfTurns
  | _ + 1, [] => .error outOfInput
  | turns + 1, symbol :: input =>
      if stop symbol then .ok (some ([], input))
      else
        (item (symbol :: input)).bind fun
          | none => .ok none
          | some (_, []) => .ok none
          | some (value, next :: rest) =>
              (many item stop outOfInput outOfTurns turns (next :: rest)).bind fun taken =>
                .ok (taken.map fun (values, rest) => (value :: values, rest))

/-- A turn in front of an item takes it and goes on behind it. -/
theorem Describes.many_turn (described : parser.Describes fault stop whole cut) {front : List β}
    (isWhole : whole front)
    : ∃ value,
        ∀ rest turns,
          rest ≠ []
          → parser.many stop outOfInput outOfTurns (turns + 1) (front ++ rest)
            = (parser.many stop outOfInput outOfTurns turns rest).bind fun taken =>
                .ok (taken.map fun (values, rest) => (value :: values, rest)) := by
  obtain ⟨value, takes⟩ := described.takes isWhole
  obtain ⟨symbol, tail, rfl, goesOn⟩ := described.begins (.inl isWhole)
  refine ⟨value, fun rest turns more => ?_⟩
  have item := takes rest
  rw [List.cons_append] at item ⊢
  rw [many, goesOn, if_neg Bool.false_ne_true, bind_of_ok item]
  cases rest with
  | nil => exact absurd rfl more
  | cons next rest => rfl

/-- Whole texts are not empty. -/
theorem Describes.length_pos (described : parser.Describes fault stop whole cut) {text : List β}
    (either : whole text ∨ cut text)
    : 0 < text.length := by
  obtain ⟨symbol, rest, rfl, _⟩ := described.begins either
  exact Nat.zero_lt_succ _

/-- Items and a stop symbol behind them are taken. Induction on the items. -/
theorem Describes.many_takes (described : parser.Describes fault stop whole cut)
    {items : List (List β)} (allWhole : ∀ item ∈ items, whole item) {last : β}
    (stops : stop last = true)
    : ∃ values,
        ∀ rest turns,
          (items.flatten ++ last :: rest).length ≤ turns
          → parser.many stop outOfInput outOfTurns turns (items.flatten ++ last :: rest)
            = .ok (some (values, rest)) := by
  induction items with
  | nil =>
      refine ⟨[], fun rest turns enough => ?_⟩
      cases turns with
      | zero => simp at enough
      | succ turns => rw [List.flatten_nil, List.nil_append, many, if_pos stops]
  | cons item items ih =>
      obtain ⟨values, later⟩ := ih (fun other member => allWhole other (by simp [member]))
      have isWhole := allWhole item (by simp)
      have nonempty := described.length_pos (.inl isWhole)
      obtain ⟨value, turn⟩ := @many_turn _ _ _ _ _ outOfInput outOfTurns _ _ _ described _ isWhole
      refine ⟨value :: values, fun rest turns enough => ?_⟩
      rw [List.flatten_cons, List.append_assoc] at enough ⊢
      rw [List.length_append] at enough
      cases turns with
      | zero => omega
      | succ turns =>
          rw [turn _ turns (by simp), bind_of_ok (later rest turns (by omega))]
          rfl

/-- Whatever is taken is items with a stop symbol behind them. Induction on the turns. -/
theorem Describes.many_took (described : parser.Describes fault stop whole cut) {turns : Nat}
    {input rest : List β} {values : List α}
    (took : parser.many stop outOfInput outOfTurns turns input = .ok (some (values, rest)))
    : ∃ (items : List (List β)) (last : β),
        (∀ item ∈ items, whole item)
        ∧ stop last = true
        ∧ input = items.flatten ++ last :: rest := by
  induction turns generalizing input values with
  | zero => cases took
  | succ turns ih =>
      cases input with
      | nil => cases took
      | cons symbol input =>
          rw [many] at took
          split at took
          · rename_i stops
            cases took
            exact ⟨[], symbol, fun item member => (by cases member), stops, rfl⟩
          · obtain ⟨taken, tookItem, took⟩ := bind_eq_ok.mp took
            match taken, took, tookItem with
            | none, took, _ => cases took
            | some (_, []), took, _ => cases took
            | some (value, next :: left), took, tookItem =>
                obtain ⟨front, isWhole, split⟩ := described.took tookItem
                obtain ⟨later, tookLater, took⟩ := bind_eq_ok.mp took
                cases later with
                | none => cases took
                | some later =>
                    cases took
                    obtain ⟨items, last, allWhole, stops, splitLater⟩ := ih tookLater
                    refine ⟨front :: items, last, ?_, stops, ?_⟩
                    · intro item member
                      rcases List.mem_cons.mp member with rfl | member
                      · exact isWhole
                      · exact allWhole item member
                    · rw [split, splitLater, List.flatten_cons, List.append_assoc]

/-- With enough turns, the repetition faults exactly where an item behind whole ones is cut.
Induction on the turns.
-/
theorem Describes.many_faults (described : parser.Describes fault stop whole cut) {turns : Nat}
    {input : List β} {other : ε} (nonempty : input ≠ []) (enough : input.length ≤ turns)
    : parser.many stop outOfInput outOfTurns turns input = .error other
      ↔ other = fault
        ∧ ∃ (items : List (List β)) (rest : List β),
            (∀ item ∈ items, whole item) ∧ cut rest ∧ input = items.flatten ++ rest := by
  constructor
  · intro faulted
    induction turns generalizing input with
    | zero =>
        cases input with
        | nil => exact absurd rfl nonempty
        | cons symbol input => simp at enough
    | succ turns ih =>
        cases input with
        | nil => exact absurd rfl nonempty
        | cons symbol input =>
            rw [many] at faulted
            split at faulted
            · cases faulted
            · rcases bind_eq_error.mp faulted with faulted | ⟨taken, tookItem, faulted⟩
              · obtain ⟨same, isCut⟩ := described.faults.mp faulted
                exact ⟨same, [], _, fun item member => (by cases member), isCut, rfl⟩
              · match taken, faulted, tookItem with
                | none, faulted, _ => cases faulted
                | some (_, []), faulted, _ => cases faulted
                | some (value, next :: left), faulted, tookItem =>
                    obtain ⟨front, isWhole, split⟩ := described.took tookItem
                    have shorter := congrArg List.length split
                    rw [List.length_append] at shorter
                    have consumed := described.length_pos (.inl isWhole)
                    rcases bind_eq_error.mp faulted with faulted | ⟨later, _, faulted⟩
                    · obtain ⟨same, items, rest, allWhole, isCut, splitLater⟩ :=
                        ih (List.cons_ne_nil next left) (by omega) faulted
                      refine ⟨same, front :: items, rest, ?_, isCut, ?_⟩
                      · intro item member
                        rcases List.mem_cons.mp member with rfl | member
                        · exact isWhole
                        · exact allWhole item member
                      · rw [split, splitLater, List.flatten_cons, List.append_assoc]
                    · cases faulted
  · rintro ⟨rfl, items, rest, allWhole, isCut, rfl⟩
    clear nonempty
    have cutNonempty := described.length_pos (.inr isCut)
    induction items generalizing turns with
    | nil =>
        rw [List.flatten_nil, List.nil_append] at enough ⊢
        obtain ⟨symbol, tail, rfl, goesOn⟩ := described.begins (.inr isCut)
        cases turns with
        | zero => omega
        | succ turns =>
            rw [many, goesOn, if_neg Bool.false_ne_true]
            exact bind_of_error (described.faults_of_cut isCut) _
    | cons item items ih =>
        have isWhole := allWhole item (by simp)
        have consumed := described.length_pos (.inl isWhole)
        obtain ⟨value, turn⟩ :=
          @many_turn _ _ _ _ _ outOfInput outOfTurns _ _ _ described _ isWhole
        rw [List.flatten_cons, List.append_assoc] at enough ⊢
        rw [List.length_append] at enough
        cases turns with
        | zero => omega
        | succ turns =>
            have more : items.flatten ++ rest ≠ [] := by
              apply List.ne_nil_of_length_pos
              rw [List.length_append]
              omega
            rw [turn _ turns more]
            exact bind_of_error
              (ih (fun other member => allWhole other (by simp [member])) (by omega)) _

end PrefixParser

end Foundations
