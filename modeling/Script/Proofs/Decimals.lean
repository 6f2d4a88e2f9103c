import Script.Proofs.Integers
import Script.Proofs.Keys
import Script.Proofs.Literals.Reading

/-! Integers as decimal text. A string is read as the integer that its digits and its sign stand
for, an integer is written so that it is read back, and the digits of a source are an integer up to
the largest one that fits. -/

namespace Script

namespace Decimal

/-- Digits and the number that they stand for, each with the weight of its place. -/
structure Digits (ds : List Char) (n : Nat) : Prop where
  proper : ds ≠ []
  digits : ∀ d ∈ ds, d.isDigit
  value : Nat.ofDigits 10 (ds.reverse.map fun d => d.toNat - '0'.toNat) = n

/-- Digits with a sign before them or without. -/
inductive Signed : List Char → Int → Prop
  | bare {ds : List Char} {n : Nat} (digits : Digits ds n) : Signed ds n
  | plus {ds : List Char} {n : Nat} (digits : Digits ds n) : Signed ('+' :: ds) n
  | minus {ds : List Char} {n : Nat} (digits : Digits ds n) : Signed ('-' :: ds) (-n)

/-- A text that is a number with a sign or without, once the blanks at its ends are gone. -/
inductive Denotes (text : List Char) (n : Int) : Prop
  | intro {front body back : List Char} (cut : text = front ++ body ++ back)
    (before : ∀ c ∈ front, Text.isBlank c) (behind : ∀ c ∈ back, Text.isBlank c)
    (signed : Signed body n)

end Decimal

open Decimal

/-! Digits. -/

theorem digitsValue_eq (ds : List Char) :
    digitsValue ds = Nat.ofDigits 10 (ds.reverse.map fun d => d.toNat - '0'.toNat) := by
  induction ds using List.reverseRecOn with
  | nil => rfl
  | append_singleton ds d ih =>
    rw [List.reverse_append, List.reverse_singleton, List.singleton_append, List.map_cons,
      Nat.ofDigits_cons, ← ih, digitsValue, List.foldl_append]
    exact Nat.add_comm _ _

theorem readDigits_iff {ds : List Char} {n : Nat} : readDigits ds = some n ↔ Digits ds n := by
  unfold readDigits
  constructor
  · intro read
    split at read
    · rename_i fits
      cases read
      exact ⟨fits.1, List.all_eq_true.1 fits.2, (digitsValue_eq ds).symm⟩
    · cases read
  · rintro ⟨proper, digits, rfl⟩
    rw [if_pos ⟨proper, List.all_eq_true.2 digits⟩, digitsValue_eq]

theorem Integer.exact_eq_some_iff {n : Int} {k : Int64} : exact n = some k ↔ k.toInt = n := by
  constructor
  · intro found
    by_cases fits : Fits n
    · obtain ⟨l, found', same⟩ := exact_of_fits fits
      rw [found] at found'
      cases found'
      exact same
    · rw [exact_eq_none fits] at found
      cases found
  · rintro rfl
    exact exact_toInt k

theorem Integer.read_iff {cs : List Char} {k : Int64} :
    Integer.read cs = some k ↔ Signed cs k.toInt := by
  constructor
  · intro found
    unfold Integer.read at found
    split at found
    · obtain ⟨n, digits, same⟩ := Option.bind_eq_some_iff.1 found
      rw [exact_eq_some_iff.1 same]
      exact .minus (readDigits_iff.1 digits)
    · obtain ⟨n, digits, same⟩ := Option.bind_eq_some_iff.1 found
      rw [exact_eq_some_iff.1 same]
      exact .plus (readDigits_iff.1 digits)
    · obtain ⟨n, digits, same⟩ := Option.bind_eq_some_iff.1 found
      rw [exact_eq_some_iff.1 same]
      exact .bare (readDigits_iff.1 digits)
  · intro signed
    generalize value : k.toInt = n at signed
    cases signed with
    | bare digits =>
      rw [Integer.read_digits digits.digits, readDigits_iff.2 digits, Option.bind_some]
      exact exact_eq_some_iff.2 value
    | @plus ds n digits =>
      have read : Integer.read ('+' :: ds) = (readDigits ds).bind fun n => exact n := rfl
      rw [read, readDigits_iff.2 digits, Option.bind_some]
      exact exact_eq_some_iff.2 value
    | @minus ds n digits =>
      have read : Integer.read ('-' :: ds) = (readDigits ds).bind fun n => exact (-(n : Int)) := rfl
      rw [read, readDigits_iff.2 digits, Option.bind_some]
      exact exact_eq_some_iff.2 value

/-! Blanks at the ends. -/

theorem Text.strip_cut (p : Char → Bool) (cs : List Char) :
    ∃ front back, cs = front ++ strip p cs ++ back ∧ (∀ c ∈ front, p c) ∧ ∀ c ∈ back, p c := by
  refine ⟨cs.takeWhile p, (cs.dropWhile p).rtakeWhile p, ?_, fun c member => ?_, fun c member => ?_⟩
  · rw [strip_eq, List.append_assoc, List.rdropWhile_append_rtakeWhile,
      List.takeWhile_append_dropWhile]
  · exact List.all_eq_true.1 List.all_takeWhile c member
  · exact List.mem_rtakeWhile_imp member

theorem Text.strip_append {p : Char → Bool} {front body back : List Char}
    (before : ∀ c ∈ front, p c) (behind : ∀ c ∈ back, p c) (proper : body ≠ [])
    (visible : ∀ c ∈ body, p c = false) : strip p (front ++ body ++ back) = body := by
  have stays {cs : List Char} (others : List Char) (proper : cs ≠ [])
      (visible : ∀ c ∈ cs, p c = false) : (cs ++ others).dropWhile p = cs ++ others := by
    obtain ⟨c, cs, rfl⟩ := List.exists_cons_of_ne_nil proper
    have first := visible c List.mem_cons_self
    exact List.dropWhile_cons_of_neg (by simp [first])
  have turned : body.reverse ≠ [] := by simpa using proper
  have visible' : ∀ c ∈ body.reverse, p c = false := by simpa using visible
  have behind' : ∀ c ∈ back.reverse, p c := by simpa using behind
  have rest := stays [] turned visible'
  rw [List.append_nil] at rest
  rw [strip, List.append_assoc, List.dropWhile_append_of_pos before, stays back proper visible,
    List.reverse_append, List.dropWhile_append_of_pos behind', rest, List.reverse_reverse]

theorem Decimal.Signed.visible {body : List Char} {n : Int} (signed : Signed body n) :
    body ≠ [] ∧ ∀ c ∈ body, Text.isBlank c = false := by
  have plain {ds : List Char} {n : Nat} (digits : Digits ds n) :
      ∀ c ∈ ds, Text.isBlank c = false :=
    fun c member => Text.digit_not_blank (digits.digits c member)
  cases signed with
  | bare digits => exact ⟨digits.proper, plain digits⟩
  | plus digits => exact ⟨List.cons_ne_nil _ _, List.forall_mem_cons.2 ⟨by decide, plain digits⟩⟩
  | minus digits => exact ⟨List.cons_ne_nil _ _, List.forall_mem_cons.2 ⟨by decide, plain digits⟩⟩

theorem Integer.read_trim_iff {s : String} {k : Int64} :
    Integer.read (Text.trim s).toList = some k ↔ Denotes s.toList k.toInt := by
  rw [Text.trim, String.toList_ofList, Integer.read_iff]
  constructor
  · intro signed
    obtain ⟨front, back, cut, before, behind⟩ := Text.strip_cut Text.isBlank s.toList
    exact .intro cut before behind signed
  · rintro ⟨cut, before, behind, signed⟩
    obtain ⟨proper, visible⟩ := signed.visible
    rw [cut, Text.strip_append before behind proper visible]
    exact signed

theorem Integer.read_of_denotes {s : String} {n : Int} (fits : Fits n)
    (denotes : Denotes s.toList n) :
    ∃ k : Int64, k.toInt = n ∧ Integer.read (Text.trim s).toList = some k := by
  obtain ⟨k, -, rfl⟩ := exact_of_fits fits
  exact ⟨k, rfl, read_trim_iff.2 denotes⟩

/-! Integers as they are written. -/

theorem Decimal.digits_repr (n : Nat) : Digits (Nat.repr n).toList n := by
  rw [Nat.repr_eq_ofList_toDigits, String.toList_ofList]
  exact readDigits_iff.1 (readDigits_toDigits n)

theorem Integer.text_denotes (n : Int64) : Denotes (Integer.text n).toList n.toInt := by
  have cut : (Integer.text n).toList = [] ++ (Integer.text n).toList ++ [] := by simp
  have digits := digits_repr n.toInt.natAbs
  refine .intro cut (List.forall_mem_nil _) (List.forall_mem_nil _) ?_
  rw [Data.toList_text_int]
  split
  · rename_i negative
    have value : n.toInt = -(n.toInt.natAbs : Int) := by omega
    have signed := Signed.minus digits
    rwa [← value] at signed
  · have value : n.toInt = (n.toInt.natAbs : Int) := by omega
    have signed := Signed.bare digits
    rwa [← value] at signed

/-! Numbers in a source. -/

theorem Double.read_digits {ds : List Char} {n : Nat} (digits : Digits ds n) :
    ∃ x, Double.read ds = some x := by
  have decimal : ∃ x, Double.readDecimal ds = some x := by
    have whole : ds.takeWhile Char.isDigit = ds := List.takeWhile_eq_self_iff.2 digits.digits
    have none : ds.dropWhile Char.isDigit = [] := List.dropWhile_eq_nil_iff.2 digits.digits
    unfold Double.readDecimal
    rw [whole, none]
    dsimp only
    rw [List.append_nil, if_neg digits.proper]
    exact ⟨_, rfl⟩
  have unsigned : ∃ x, Double.readUnsigned ds = some x := by
    unfold Double.readUnsigned
    dsimp only
    split
    · exact ⟨_, rfl⟩
    split
    · exact ⟨_, rfl⟩
    · exact decimal
  unfold Double.read
  split
  · exact absurd (digits.digits '-' List.mem_cons_self) (by decide)
  · exact absurd (digits.digits '+' List.mem_cons_self) (by decide)
  · exact unsigned

namespace Parser

/-- The literal that digits are: an integer if one is as large, and a double otherwise. -/
structure Counted (n : Nat) (v : Literal) : Prop where
  whole : (∃ k : Int64, k.toInt = n ∧ v = .int k) ↔ n < 2 ^ 63
  beyond : ¬ n < 2 ^ 63 → ∃ x, v = .double x

theorem numberLiteral_digits {text : String} {n : Nat} (digits : Digits text.toList n) :
    ∃ v, numberLiteral text = some v ∧ Counted n v := by
  by_cases small : n < 2 ^ 63
  · obtain ⟨k, -, same⟩ := Integer.exact_of_fits (n := n) ⟨by omega, by omega⟩
    have signed : Signed text.toList k.toInt := by
      rw [same]
      exact .bare digits
    refine ⟨.int k, ?_, iff_of_true ⟨k, same, rfl⟩ small, absurd small⟩
    rw [numberLiteral, Integer.read_iff.2 signed]
    rfl
  · obtain ⟨x, found⟩ := Double.read_digits digits
    have none : Integer.read text.toList = none := by
      rw [Integer.read_digits digits.digits, readDigits_iff.2 digits, Option.bind_some]
      exact Integer.exact_eq_none fun fits => small (by have := fits.2; omega)
    refine ⟨.double x, ?_, iff_of_false ?_ small, fun _ => ⟨x, rfl⟩⟩
    · rw [numberLiteral, none, found]
      rfl
    · rintro ⟨k, -, same⟩
      cases same

theorem primary_number {t : Token} {v : Literal} (number : t.kind = .number)
    (found : numberLiteral t.text = some v) (bound : Nat) (expression : Parser Expr) (last : Token)
    (rest : List Token) (stop : Token) :
    primary bound expression ⟨last, t :: rest, stop⟩ =
      .ok (.literal v t.span) ⟨t, rest, stop⟩ := by
  obtain ⟨kind, text, span⟩ := t
  cases number
  change primaryFrom bound expression ⟨.number, text, span⟩ ⟨_, rest, stop⟩ = _
  unfold primaryFrom
  dsimp only
  rw [found]
  rfl

end Parser

namespace Host

variable {h : Host} {frame : Frame} {e : Expr} {m m₁ : Machine}

theorem text?_int (heap : Heap) (n : Int64) : heap.text? (.int n) = some (Integer.text n) := by
  unfold Heap.text?
  cases heap.lists.size + heap.objects.size <;> rfl

theorem evaluate_builtin {v : Value} {k : Kind} {name : String} {b : Builtin} (span : Span)
    (ran : h.evaluate frame e m = .ok v m₁) (kind : v.kind = k) (free : k ≠ .object)
    (found : Builtin.find? k name = some b) (none : b.arity = 0) :
    h.evaluate frame (.method e name [] span) m = b.run v [] span m₁ := by
  subst kind
  have called : Builtin.call? v name [] span = some (b.run v [] span) := by
    rw [Builtin.call?, found, Option.map_some, none, if_pos List.length_nil]
  have builtin : v.callee name span m₁ = .ok .builtin m₁ := by
    cases v with
    | object => exact absurd rfl free
    | _ => rfl
  have noArgs : h.evaluateAll frame [] m₁ = .ok [] m₁ := by
    rw [evaluateAll]
    rfl
  rw [Host.evaluate, ran_bind ran, ran_bind builtin, ran_bind noArgs, callOn, called,
    Option.getD_some]

theorem evaluate_asInt {s : String} (span : Span)
    (ran : h.evaluate frame e m = .ok (.string s) m₁) :
    h.evaluate frame (.method e "asInt" [] span) m =
      match Integer.read (Text.trim s).toList with
      | some k => .ok (.int k) m₁
      | none => .error (.fault ⟨.running (.noInt s), span⟩) m₁ := by
  rw [evaluate_builtin (k := .string) (b := .asInt) span ran rfl (by decide) (by decide) rfl,
    Builtin.run]
  cases Integer.read (Text.trim s).toList <;> rfl

theorem evaluate_asString {n : Int64} (span : Span)
    (ran : h.evaluate frame e m = .ok (.int n) m₁) :
    h.evaluate frame (.method e "asString" [] span) m = .ok (.string (Integer.text n)) m₁ := by
  have heap : Eval.heap m₁ = .ok m₁.heap m₁ := rfl
  rw [evaluate_builtin (k := .int) (b := .asString) span ran rfl (by decide) (by decide) rfl,
    Builtin.run, ran_bind heap, text?_int]
  rfl

/-- How a string is converted: to the number that it denotes if that fits, and otherwise with the
failure that shows the string. -/
structure Converts (s : String) (span : Span) (m : Machine)
    (ran : EStateM.Result Halt Machine Value) : Prop where
  whole (n : Int) :
    (∃ k : Int64, k.toInt = n ∧ ran = .ok (.int k) m) ↔ Denotes s.toList n ∧ Integer.Fits n
  fails : (∀ n, Denotes s.toList n → ¬ Integer.Fits n) →
    ran = .error (.fault ⟨.running (.noInt s), span⟩) m

theorem asInt_converts {s : String} (span : Span)
    (ran : h.evaluate frame e m = .ok (.string s) m₁) :
    Converts s span m₁ (h.evaluate frame (.method e "asInt" [] span) m) := by
  rw [evaluate_asInt span ran]
  cases found : Integer.read (Text.trim s).toList with
  | some k =>
    have denotes := Integer.read_trim_iff.1 found
    have fits := Integer.fits_toInt k
    refine ⟨fun n => ⟨?_, fun ⟨also, inside⟩ => ?_⟩, fun none => absurd fits (none _ denotes)⟩
    · rintro ⟨l, rfl, same⟩
      cases same
      exact ⟨denotes, fits⟩
    · obtain ⟨l, value, read⟩ := Integer.read_of_denotes inside also
      rw [found] at read
      cases read
      exact ⟨k, value, rfl⟩
  | none =>
    refine ⟨fun n => iff_of_false ?_ fun ⟨also, inside⟩ => ?_, fun _ => rfl⟩
    · rintro ⟨l, -, same⟩
      cases same
    · obtain ⟨l, -, read⟩ := Integer.read_of_denotes inside also
      rw [found] at read
      cases read

/-- A string is converted to the integer that it denotes, the text of an integer is converted back,
and the digits of a number token are an integer if one is as large. -/
theorem decimals_denote (h : Host) (frame : Frame) :
    (∀ {e : Expr} {m m₁ : Machine} {s : String} (span : Span),
      h.evaluate frame e m = .ok (.string s) m₁ →
        Converts s span m₁ (h.evaluate frame (.method e "asInt" [] span) m)) ∧
    (∀ {e : Expr} {m m₁ : Machine} {n : Int64} (inner span : Span),
      h.evaluate frame e m = .ok (.int n) m₁ →
        h.evaluate frame (.method (.method e "asString" [] inner) "asInt" [] span) m =
          .ok (.int n) m₁) ∧
    ∀ {t : Token} {n : Nat}, t.kind = .number → Digits t.text.toList n →
      ∀ (bound : Nat) (expression : Parser Expr) (last : Token) (rest : List Token) (stop : Token),
        ∃ v, Parser.Counted n v ∧
          Parser.primary bound expression ⟨last, t :: rest, stop⟩ =
            .ok (.literal v t.span) ⟨t, rest, stop⟩ := by
  refine ⟨asInt_converts, fun {e m m₁ n} inner span ran => ?_,
    fun {t n} number digits bound expression last rest stop => ?_⟩
  · rw [evaluate_asInt span (evaluate_asString inner ran),
      Integer.read_trim_iff.2 (Integer.text_denotes n)]
  · obtain ⟨v, found, counted⟩ := Parser.numberLiteral_digits digits
    exact ⟨v, counted, Parser.primary_number number found bound expression last rest stop⟩

theorem evaluate_string (h : Host) (frame : Frame) (s : String) (span : Span) (m : Machine) :
    h.evaluate frame (.literal (.string s) span) m = .ok (.string s) m :=
  rfl

/-- How a method without arguments ends on an expression, in a script without variables. -/
def methodOf (e : Expr) (name : String) : EStateM.Result Halt Machine Value :=
  (Host.of 0 (.inMemory ⟨[], []⟩ .working)).evaluate State.start.frame (.method e name [] default)
    State.start.machine

/-- The first number that does not fit. -/
def pastGreatest : Token :=
  ⟨.number, "9223372036854775808", default⟩

/-- Blanks and zeros around a number below zero, and the numbers at the ends of the range and past
them. -/
theorem least_and_past_greatest :
    methodOf (.literal (.string "\n-007\u00a0") default) "asInt" =
        .ok (.int (-7)) State.start.machine ∧
      methodOf (.literal (.string pastGreatest.text) default) "asInt" =
        .error (.fault ⟨.running (.noInt pastGreatest.text), default⟩) State.start.machine ∧
      methodOf (.method (.literal (.int Int64.minValue) default) "asString" [] default) "asInt" =
        .ok (.int Int64.minValue) State.start.machine ∧
      ∃ x, Parser.primary 0 (Parser.expression 0) ⟨pastGreatest, [pastGreatest], pastGreatest⟩ =
        .ok (.literal (.double x) default) ⟨pastGreatest, [], pastGreatest⟩ := by
  obtain ⟨converts, back, counts⟩ :=
    decimals_denote (Host.of 0 (.inMemory ⟨[], []⟩ .working)) State.start.frame
  refine ⟨?_, ?_, back default default (evaluate_int _ _ _ default _), ?_⟩
  · have seven : Digits ['0', '0', '7'] 7 := readDigits_iff.1 (by decide)
    have cut : "\n-007\u00a0".toList = ['\n'] ++ ['-', '0', '0', '7'] ++ ['\u00a0'] := by decide
    have denotes : Denotes "\n-007\u00a0".toList (-7) :=
      .intro cut (List.forall_mem_singleton.2 (by decide)) (List.forall_mem_singleton.2 (by decide))
        (.minus seven)
    obtain ⟨k, value, ran⟩ :=
      ((converts default (evaluate_string _ _ _ default _)).whole (-7)).2 ⟨denotes, by decide⟩
    have same : k = -7 := Int64.toInt.inj value
    rw [← same]
    exact ran
  · refine (converts default (evaluate_string _ _ _ default _)).fails fun n denotes fits => ?_
    obtain ⟨k, -, read⟩ := Integer.read_of_denotes fits denotes
    have none : Integer.read (Text.trim pastGreatest.text).toList = none := by decide
    rw [none] at read
    cases read
  · have digits : Digits pastGreatest.text.toList 9223372036854775808 :=
      readDigits_iff.1 (by decide)
    obtain ⟨v, counted, parsed⟩ :=
      counts rfl digits 0 (Parser.expression 0) pastGreatest [] pastGreatest
    obtain ⟨x, rfl⟩ := counted.beyond (by decide)
    exact ⟨x, parsed⟩

end Host

end Script
