import Script.Proofs.Limits
import Script.Proofs.Lookup

/-! Loops over what is there at their start. The header of a loop is evaluated once, and what it
yields then fixes the rounds and what each of them binds. The body is arbitrary, and nothing that it
does adds a round, takes one away or changes what one binds. -/

namespace Script

/-! Rounds, and the course of a loop through them. -/

/-- What the rounds of a loop bind, in their order. -/
abbrev Rounds := List (List (String × Value))

/-- The second state is the first with the names of a round bound. Of bindings of one name the last
counts. -/
structure State.Binds (s : State) (bindings : List (String × Value)) (t : State) : Prop where
  machine : t.machine = s.machine
  vars : ∀ x, t.frame.get? x = (bindings.reverse.lookup x).or (s.frame.get? x)
  table : t.frame.table = s.frame.table
  parent : t.frame.parent = s.frame.parent

/-- The body runs through in each of the rounds, which start from where the one before ended. -/
inductive Through (body : Exec Flow) : Rounds → State → State → Prop
  | none (s : State) : Through body [] s s
  | round {bindings : List (String × Value)} {rounds : Rounds} {s t u v : State}
    (starts : s.Binds bindings t) (ran : body t = .ok .done u) (rest : Through body rounds u v) :
    Through body (bindings :: rounds) s v

/-- What the loop ends with if a round ends so, other than by running through. -/
inductive CutShort : EStateM.Result Halt State Flow → EStateM.Result Halt State Flow → Prop
  | left (t : State) : CutShort (.ok .left t) (.ok .done t)
  | gave (v : Value) (t : State) : CutShort (.ok (.gave v) t) (.ok (.gave v) t)
  | failed (e : Halt) (t : State) : CutShort (.error e t) (.error e t)

/-- A loop goes through its rounds in order, until one stops it or there are no more. -/
def Course (body : Exec Flow) (rounds : Rounds) (s : State)
    (ended : EStateM.Result Halt State Flow) : Prop :=
  ∃ passed left u, rounds = passed ++ left ∧ Through body passed s u ∧
    (left = [] ∧ ended = .ok .done u ∨
      ∃ bindings more t, left = bindings :: more ∧ u.Binds bindings t ∧ CutShort (body t) ended)

namespace State

theorem binds_assignEach (bindings : List (String × Value)) (s : State) :
    ∃ t, (bindings.forM fun b => Exec.assign b.1 b.2) s = .ok () t ∧ s.Binds bindings t := by
  induction bindings generalizing s with
  | nil => exact ⟨s, rfl, rfl, fun _ => rfl, rfl, rfl⟩
  | cons b bindings ih =>
    obtain ⟨t, ran, binds⟩ := ih { s with frame := s.frame.assign b.1 b.2 }
    refine ⟨t, ran, binds.machine, fun x => ?_, binds.table, binds.parent⟩
    have first : (s.frame.assign b.1 b.2).get? x = (List.lookup x [b]).or (s.frame.get? x) := by
      rw [List.lookup_cons]
      by_cases same : x = b.1
      · rw [same, beq_self_eq_true]
        exact Bindings.get?_insert_self s.frame.vars b.1 b.2
      · rw [beq_false_of_ne same]
        exact Bindings.get?_insert_of_ne s.frame.vars same b.2
    rw [binds.vars, List.reverse_cons, List.lookup_append, Option.or_assoc, ← first]

end State

/-- Going from round to round comes to such a course, whatever the body does. -/
theorem visit_course (body : Exec Flow) (rounds : Rounds) (s : State) :
    Course body rounds s (Exec.visit body rounds s) := by
  induction rounds generalizing s with
  | nil => exact ⟨[], [], s, rfl, .none s, .inl ⟨rfl, rfl⟩⟩
  | cons bindings rounds ih =>
    obtain ⟨t, bound, starts⟩ := s.binds_assignEach bindings
    have stopped (ended : EStateM.Result Halt State Flow) (stops : CutShort (body t) ended) :
        Course body (bindings :: rounds) s ended :=
      ⟨[], bindings :: rounds, s, rfl, .none s, .inr ⟨bindings, rounds, t, rfl, starts, stops⟩⟩
    rw [Exec.visit, ran_bind bound, bind_apply]
    cases ran : body t with
    | error e u =>
      rw [ran] at stopped
      exact stopped _ (.failed e u)
    | ok flow u =>
      cases flow with
      | left =>
        rw [ran] at stopped
        exact stopped _ (.left u)
      | gave v =>
        rw [ran] at stopped
        exact stopped _ (.gave v u)
      | done =>
        obtain ⟨passed, left, w, whole, through, ends⟩ := ih u
        exact ⟨bindings :: passed, left, w, congrArg _ whole, .round starts ran through, ends⟩

/-! What headers yield. -/

/-- All the integers from one through another, each once and in ascending order. -/
structure Counts (a b : Int64) (ns : List Int64) : Prop where
  mem : ∀ n, n ∈ ns ↔ a.toInt ≤ n.toInt ∧ n.toInt ≤ b.toInt
  ascending : ns.Pairwise fun m n => m.toInt < n.toInt

/-- What the header of a loop yields in a state: the rounds, as its values and the heap are once its
expressions are evaluated, and the state that this leaves. -/
inductive Header.Yields (h : Host) (s : State) : Header → Rounds → State → Prop
  | range (name : String) {start stop : Expr} {a b : Int64} {ns : List Int64} {m n : Machine}
    (first : h.evaluate s.frame start s.machine = .ok (.int a) m)
    (last : h.evaluate s.frame stop m = .ok (.int b) n) (counts : Counts a b ns) :
    Yields h s (.range name start stop) (ns.map fun i => [(name, .int i)]) ⟨s.frame, n⟩
  | items (name : String) {e : Expr} {r : ListRef} {m : Machine}
    (source : h.evaluate s.frame e s.machine = .ok (.list r) m) :
    Yields h s (.each name e) ((m.heap.list r).toList.map fun v => [(name, v)]) ⟨s.frame, m⟩
  | characters (name : String) {e : Expr} {text : String} {m : Machine}
    (source : h.evaluate s.frame e s.machine = .ok (.string text) m) :
    Yields h s (.each name e)
      (text.toList.map fun c => [(name, .string (String.singleton c))]) ⟨s.frame, m⟩
  | keys (name : String) {e : Expr} {r : ObjectRef} {m : Machine}
    (source : h.evaluate s.frame e s.machine = .ok (.object r) m) :
    Yields h s (.each name e)
      ((m.heap.object r).keys.map fun k => [(name, .string k)]) ⟨s.frame, m⟩
  | placedItems (key value : String) {e : Expr} {r : ListRef} {m : Machine}
    (source : h.evaluate s.frame e s.machine = .ok (.list r) m) :
    Yields h s (.pairs key value e)
      ((m.heap.list r).toList.zipIdx.map fun p => [(key, .int (Int64.ofNat p.2)), (value, p.1)])
      ⟨s.frame, m⟩
  | placedCharacters (key value : String) {e : Expr} {text : String} {m : Machine}
    (source : h.evaluate s.frame e s.machine = .ok (.string text) m) :
    Yields h s (.pairs key value e)
      (text.toList.zipIdx.map fun p =>
        [(key, .int (Int64.ofNat p.2)), (value, .string (String.singleton p.1))]) ⟨s.frame, m⟩
  | entries (key value : String) {e : Expr} {r : ObjectRef} {m : Machine}
    (source : h.evaluate s.frame e s.machine = .ok (.object r) m) :
    Yields h s (.pairs key value e)
      ((m.heap.object r).entries.map fun p => [(key, .string p.1), (value, p.2)]) ⟨s.frame, m⟩

/-! Ranges. -/

/-- The integers that a loop from one through another counts. -/
def counted (a b : Int64) : List Int64 :=
  (List.range (b.toInt - a.toInt + 1).toNat).map fun (i : Nat) => Int64.ofInt (a.toInt + i)

theorem toInt_counted {a b : Int64} {i : Nat} (below : i < (b.toInt - a.toInt + 1).toNat) :
    (Int64.ofInt (a.toInt + i)).toInt = a.toInt + i := by
  have least := a.le_toInt
  have most := b.toInt_lt
  exact Int64.toInt_ofInt_of_le (by omega) (by omega)

theorem counts_counted (a b : Int64) : Counts a b (counted a b) where
  mem n := by
    unfold counted
    rw [List.mem_map]
    constructor
    · rintro ⟨i, member, rfl⟩
      have below := List.mem_range.1 member
      rw [toInt_counted below]
      omega
    · rintro ⟨above, below⟩
      have low : 0 ≤ n.toInt - a.toInt := by omega
      refine ⟨(n.toInt - a.toInt).toNat, List.mem_range.2 (by omega), ?_⟩
      rw [Int.toNat_of_nonneg low, Int.add_comm, Int.sub_add_cancel, Int64.ofInt_toInt]
  ascending := by
    unfold counted
    rw [List.pairwise_map]
    refine List.pairwise_lt_range.imp_of_mem fun first second less => ?_
    rw [toInt_counted (List.mem_range.1 first), toInt_counted (List.mem_range.1 second)]
    omega

/-- There is one way to count. -/
theorem Counts.unique {a b : Int64} {ms ns : List Int64} (counts : Counts a b ms)
    (counts' : Counts a b ns) : ms = ns := by
  have distinct {l : List Int64} (counts : Counts a b l) : l.Nodup :=
    counts.ascending.imp fun less => by
      rintro rfl
      exact Int.lt_irrefl _ less
  have same : ms.Perm ns := (List.perm_ext_iff_of_nodup (distinct counts) (distinct counts')).2
    fun n => (counts.mem n).trans (counts'.mem n).symm
  exact same.eq_of_pairwise (fun m n _ _ up down => absurd up (Int.lt_asymm down)) counts.ascending
    counts'.ascending

theorem count_eq_visit (name : String) (body : Exec Flow) (n : Nat) (i : Int) :
    Exec.count name body n i =
      Exec.visit body
        ((List.range n).map fun (k : Nat) => [(name, .int (Int64.ofInt (i + k)))]) := by
  induction n generalizing i with
  | zero => rfl
  | succ n ih =>
    funext s
    have first (v : Value) :
        ([(name, v)].forM fun b => Exec.assign b.1 b.2) s =
          .ok () { s with frame := s.frame.assign name v } := rfl
    have shifted (k : Nat) : i + 1 + k = i + (k + 1 : Nat) := by omega
    have assigned (v : Value) :
        Exec.assign name v s = .ok () { s with frame := s.frame.assign name v } := rfl
    rw [List.range_succ_eq_map, List.map_cons, List.map_map, Exec.count, Exec.visit, ih,
      ran_bind (first _), ran_bind (assigned _), Int.natCast_zero, Int.add_zero]
    simp only [shifted, Function.comp_def]

namespace Host

variable {h : Host} {header : Header} {s t : State} {rounds : Rounds}

/-! The expressions of headers. -/

theorem bound_int {e : Expr} {n : Int64} {m : Machine}
    (ran : h.evaluate s.frame e s.machine = .ok (.int n) m) :
    h.bound e s = .ok n ⟨s.frame, m⟩ := by
  unfold bound Exec.eval
  dsimp only
  rw [ran_bind ran]
  rfl

theorem bound_cases (h : Host) (e : Expr) (s : State) :
    (∃ n m, h.evaluate s.frame e s.machine = .ok (.int n) m) ∨
      ∃ halt t, h.bound e s = .error halt t := by
  unfold bound Exec.eval
  dsimp only
  rw [bind_apply]
  cases ran : h.evaluate s.frame e s.machine with
  | error halt m => exact .inr ⟨halt, _, rfl⟩
  | ok v m =>
    cases v with
    | int n => exact .inl ⟨n, m, rfl⟩
    | _ => exact .inr ⟨_, _, rfl⟩

/-- What a loop visits, read off the value of its source. -/
def visited {α : Type} (h : Host) (e : Expr) (read : Heap → Value → Except RunFault α)
    (span : Span) : Exec α :=
  Exec.eval fun frame => do
    let v ← h.evaluate frame e
    Eval.lift (read (← Eval.heap) v) span

variable {α : Type} {e : Expr} {v : Value} {m : Machine} {a : α}

theorem visited_ran (read : Heap → Value → Except RunFault α)
    (ran : h.evaluate s.frame e s.machine = .ok v m) (answer : read m.heap v = .ok a)
    (span : Span) :
    h.visited e read span s = .ok a ⟨s.frame, m⟩ := by
  unfold visited Exec.eval
  dsimp only
  rw [ran_bind ran, ran_bind (show Eval.heap m = .ok m.heap m from rfl), answer]
  rfl

theorem visited_cases (h : Host) (e : Expr) (read : Heap → Value → Except RunFault α) (s : State)
    (span : Span) :
    (∃ v m a, h.evaluate s.frame e s.machine = .ok v m ∧ read m.heap v = .ok a) ∨
      ∃ halt t, h.visited e read span s = .error halt t := by
  unfold visited Exec.eval
  dsimp only
  rw [bind_apply]
  cases ran : h.evaluate s.frame e s.machine with
  | error halt m => exact .inr ⟨halt, _, rfl⟩
  | ok v m =>
    cases answer : read m.heap v with
    | ok a => exact .inl ⟨v, m, a, rfl, answer⟩
    | error f =>
      dsimp only
      rw [ran_bind (show Eval.heap m = .ok m.heap m from rfl), answer]
      exact .inr ⟨_, _, rfl⟩

theorem iterate_each (h : Host) (name : String) (e : Expr) (span : Span) (body : Exec Flow) :
    h.iterate (.each name e) span body =
      h.visited e Heap.items span >>= fun vs => Exec.visit body (vs.map fun v => [(name, v)]) :=
  rfl

theorem iterate_pairs (h : Host) (key value : String) (e : Expr) (span : Span) (body : Exec Flow) :
    h.iterate (.pairs key value e) span body =
      h.visited e Heap.pairs span >>= fun ps =>
        Exec.visit body (ps.map fun p => [(key, p.1), (value, p.2)]) :=
  rfl

/-! Loops by their headers. -/

/-- A loop goes through what its header yields. -/
theorem iterate_eq_visit (yields : header.Yields h s rounds t) (span : Span) (body : Exec Flow) :
    h.iterate header span body s = Exec.visit body rounds t := by
  cases yields with
  | range name first last counts =>
    rw [iterate, ran_bind (bound_int first), ran_bind (bound_int last), count_eq_visit,
      counts.unique (counts_counted _ _), counted, List.map_map]
    rfl
  | items name ran =>
    have answer := visited_ran Heap.items ran rfl span
    rw [iterate_each, ran_bind answer]
  | characters name ran =>
    have answer := visited_ran Heap.items ran rfl span
    rw [iterate_each, ran_bind answer, List.map_map]
    rfl
  | keys name ran =>
    have answer := visited_ran Heap.items ran rfl span
    rw [iterate_each, ran_bind answer, List.map_map]
    rfl
  | placedItems key value ran =>
    have answer := visited_ran Heap.pairs ran rfl span
    rw [iterate_pairs, ran_bind answer, List.map_map]
    rfl
  | placedCharacters key value ran =>
    have answer := visited_ran Heap.pairs ran rfl span
    rw [iterate_pairs, ran_bind answer, List.map_map, List.zipIdx_map, List.map_map]
    rfl
  | entries key value ran =>
    have answer := visited_ran Heap.pairs ran rfl span
    rw [iterate_pairs, ran_bind answer, List.map_map]
    rfl

/-- A loop whose header yields nothing fails, and its body is not run. -/
theorem iterate_fails (none : ∀ rounds t, ¬ header.Yields h s rounds t) (span : Span) :
    ∃ halt t, ∀ body, h.iterate header span body s = .error halt t := by
  cases header with
  | range name start stop =>
    rcases h.bound_cases start s with ⟨a, m, first⟩ | ⟨halt, t, failed⟩
    · rcases h.bound_cases stop ⟨s.frame, m⟩ with ⟨b, n, last⟩ | ⟨halt, t, failed⟩
      · exact absurd (.range name first last (counts_counted a b)) (none _ _)
      · refine ⟨halt, t, fun body => ?_⟩
        rw [iterate, ran_bind (bound_int first), bind_apply, failed]
    · refine ⟨halt, t, fun body => ?_⟩
      rw [iterate, bind_apply, failed]
  | each name e =>
    rcases h.visited_cases e Heap.items s span with ⟨v, m, vs, ran, answer⟩ | ⟨halt, t, failed⟩
    · cases v with
      | list r => exact absurd (.items name ran) (none _ _)
      | string text => exact absurd (.characters name ran) (none _ _)
      | object r => exact absurd (.keys name ran) (none _ _)
      | _ => cases answer
    · refine ⟨halt, t, fun body => ?_⟩
      rw [iterate_each, bind_apply, failed]
  | pairs key value e =>
    rcases h.visited_cases e Heap.pairs s span with ⟨v, m, ps, ran, answer⟩ | ⟨halt, t, failed⟩
    · cases v with
      | list r => exact absurd (.placedItems key value ran) (none _ _)
      | string text => exact absurd (.placedCharacters key value ran) (none _ _)
      | object r => exact absurd (.entries key value ran) (none _ _)
      | _ => cases answer
    · refine ⟨halt, t, fun body => ?_⟩
      rw [iterate_pairs, bind_apply, failed]

/-- A loop goes through what its header yields before the first round, in order, each round starting
with what it binds, until one leaves the loop, gives a value or fails. If the header yields nothing,
the loop fails and no body is run. -/
theorem loop_visits_entry (h : Host) (header : Header) (b : Block) (span : Span) (s : State) :
    (∀ rounds t, header.Yields h s rounds t →
      Course (h.executeBlock b) rounds t (h.execute (.iterate header b span) s)) ∧
    ((∀ rounds t, ¬ header.Yields h s rounds t) →
      ∃ halt t, ∀ b', h.execute (.iterate header b' span) s = .error halt t) := by
  refine ⟨fun rounds t yields => ?_, fun none => ?_⟩
  · rw [execute, iterate_eq_visit yields]
    exact visit_course _ _ _
  · obtain ⟨halt, t, fails⟩ := iterate_fails none span
    exact ⟨halt, t, fun b' => fails (h.executeBlock b')⟩

/-- A list of one and two under a name. -/
def oneAndTwo : State :=
  ⟨State.start.frame.assign "xs" (.list ⟨0⟩),
    ⟨{ Heap.empty with lists := #[#[.int 1, .int 2]] }, "", .empty⟩⟩

/-- A loop over a list that its body makes longer goes round for what was there. -/
theorem growing_list_visited :
    let h := Host.of 0 (.inMemory ⟨[], []⟩ .working)
    let grow : Block :=
      [.expression (.method (.name "xs" default) "add" [.name "x" default] default) default]
    let ran := h.execute (.iterate (.each "x" (.name "xs" default)) grow default) oneAndTwo
    Course (h.executeBlock grow) [[("x", .int 1)], [("x", .int 2)]] oneAndTwo ran ∧
      ∃ t, ran = .ok .done t ∧ t.machine.heap.list ⟨0⟩ = #[.int 1, .int 2, .int 1, .int 2] := by
  intro h grow ran
  have source : h.evaluate oneAndTwo.frame (.name "xs" default) oneAndTwo.machine =
      .ok (.list ⟨0⟩) oneAndTwo.machine := rfl
  obtain ⟨visits, -⟩ := loop_visits_entry h (.each "x" (.name "xs" default)) grow default oneAndTwo
  exact ⟨visits _ _ (.items "x" source), _, rfl, rfl⟩

end Host

end Script
