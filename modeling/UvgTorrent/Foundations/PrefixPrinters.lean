import UvgTorrent.Foundations.PrefixParsers

/-! Printers that a prefix parser inverts: a printed value is taken back off the front of any input,
and the printers of sequences and repetitions are put together from those of their parts.
-/

namespace Foundations

variable {α β γ ε : Type}

namespace PrefixParser

/-- What the printer writes for a valid value begins with no stop symbol, and the parser takes the
value back, whatever stands behind it.
-/
structure Inverts (parser : PrefixParser ε β α) (stop : β → Bool) (print : α → List β)
    (valid : α → Prop)
    : Prop where
  begins
    : ∀ {value},
        valid value → ∃ symbol rest, print value = symbol :: rest ∧ stop symbol = false
  reads
    : ∀ {value},
        valid value → ∀ rest, parser (print value ++ rest) = .ok (some (value, rest))

variable {parser : PrefixParser ε β α} {other : PrefixParser ε β γ} {stop otherStop : β → Bool}
  {print : α → List β} {otherPrint : γ → List β} {valid : α → Prop} {otherValid : γ → Prop}
  {outOfInput outOfTurns : ε}

/-- Two values in a row. -/
theorem Inverts.pair (inverts : parser.Inverts stop print valid)
    (next : other.Inverts otherStop otherPrint otherValid)
    : (parser.pair other).Inverts stop (fun value => print value.1 ++ otherPrint value.2)
        (fun value => valid value.1 ∧ otherValid value.2) := by
  constructor
  case begins =>
    rintro ⟨first, second⟩ ⟨firstValid, _⟩
    obtain ⟨symbol, rest, printed, goesOn⟩ := inverts.begins firstValid
    exact ⟨symbol, rest ++ otherPrint second, by rw [printed, List.cons_append], goesOn⟩
  case reads =>
    rintro ⟨first, second⟩ ⟨firstValid, secondValid⟩ rest
    rw [List.append_assoc, PrefixParser.pair, bind_of_ok (inverts.reads firstValid _)]
    exact bind_of_ok (next.reads secondValid rest) _

/-- Values in a row with a stop symbol behind them. Induction on the values. -/
theorem Inverts.many (inverts : parser.Inverts stop print valid) {values : List α}
    (allValid : ∀ value ∈ values, valid value) {last : β} (stops : stop last = true)
    {rest : List β} {turns : Nat} (enough : (values.flatMap print).length < turns)
    : parser.many stop outOfInput outOfTurns turns (values.flatMap print ++ last :: rest)
      = .ok (some (values, rest)) := by
  induction values generalizing turns with
  | nil =>
      cases turns with
      | zero => cases enough
      | succ turns => rw [List.flatMap_nil, List.nil_append, PrefixParser.many, if_pos stops]
  | cons value values ih =>
      have isValid := allValid value List.mem_cons_self
      obtain ⟨symbol, tail, printed, goesOn⟩ := inverts.begins isValid
      have read := inverts.reads isValid (values.flatMap print ++ last :: rest)
      have longer : 0 < (print value).length := by
        rw [printed]
        exact Nat.zero_lt_succ _
      rw [List.flatMap_cons, List.length_append] at enough
      cases turns with
      | zero => cases enough
      | succ turns =>
          have later
              : parser.many stop outOfInput outOfTurns turns (values.flatMap print ++ last :: rest)
                = .ok (some (values, rest)) :=
            ih (fun other member => allValid other (List.mem_cons_of_mem value member)) (by omega)
          rw [List.flatMap_cons, List.append_assoc]
          rw [printed, List.cons_append] at read ⊢
          rw [PrefixParser.many, goesOn, if_neg Bool.false_ne_true, bind_of_ok read]
          have goesOn : values.flatMap print ++ last :: rest ≠ [] := by simp
          generalize values.flatMap print ++ last :: rest = input at later goesOn ⊢
          cases input with
          | nil => exact absurd rfl goesOn
          | cons next input => exact bind_of_ok later _

-----------------------------------------------------------------------------------------
-- The values that a parser can yield
-----------------------------------------------------------------------------------------

/-- Whatever the parser takes has a property. -/
def Yields (parser : PrefixParser ε β α) (property : α → Prop) : Prop :=
  ∀ input value rest, parser input = .ok (some (value, rest)) → property value

theorem Yields.mapValue {property : α → Prop} {mapped : γ → Prop} {make : α → γ}
    (yields : parser.Yields property) (made : ∀ value, property value → mapped (make value))
    : (parser.mapValue make).Yields mapped := by
  intro input value rest took
  obtain ⟨inner, parsed, rfl⟩ := mapValue_eq_some.mp took
  exact made inner (yields _ _ _ parsed)

theorem Yields.pair {first : α → Prop} {second : γ → Prop} (yields : parser.Yields first)
    (next : other.Yields second)
    : (parser.pair other).Yields fun value => first value.1 ∧ second value.2 := by
  intro input value rest took
  obtain ⟨taken, parsed, took⟩ := bind_eq_ok.mp took
  cases taken with
  | none => cases took
  | some taken =>
      obtain ⟨later, parsedNext, took⟩ := bind_eq_ok.mp took
      cases later with
      | none => cases took
      | some later =>
          cases took
          exact ⟨yields _ _ _ parsed, next _ _ _ parsedNext⟩

/-- Induction on the turns. -/
theorem Yields.many {property : α → Prop} (yields : parser.Yields property) (turns : Nat)
    : (parser.many stop outOfInput outOfTurns turns).Yields
        fun values => ∀ value ∈ values, property value := by
  intro input values rest took
  induction turns generalizing input values with
  | zero => cases took
  | succ turns ih =>
      cases input with
      | nil => cases took
      | cons symbol input =>
          rw [PrefixParser.many] at took
          split at took
          · cases took
            intro value member
            cases member
          · obtain ⟨taken, parsed, took⟩ := bind_eq_ok.mp took
            rcases taken with _ | ⟨first, _ | ⟨next, left⟩⟩
            · cases took
            · cases took
            · obtain ⟨later, looped, took⟩ := bind_eq_ok.mp took
              cases later with
              | none => cases took
              | some later =>
                  cases took
                  intro value member
                  rcases List.mem_cons.mp member with rfl | member
                  · exact yields _ _ _ parsed
                  · exact ih _ _ looped value member

end PrefixParser

end Foundations
