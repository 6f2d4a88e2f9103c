import Script.Proofs.Layout.Calls

/-! Two evaluations of one expression, written at different places, end alike. -/

namespace Script.World

variable {w : World} {host : Host} {frame : Frame} {s t : Span}

theorem lookup_evals (own : w.OwnsFrame frame) (name : String) (places : w.view s = w.view t) :
    w.Evals (Same w.Owns) (frame.lookup name s) (frame.lookup name t) := by
  apply evals_heap
  intro h k heaps
  obtain ⟨same, owned⟩ := own.function? heaps name
  rw [← same]
  apply evals_orFail _ _ places
  intro v found
  rcases Option.or_eq_some_iff.1 found with bound | ⟨-, defined⟩
  · exact own.get? bound
  · obtain ⟨r, here, rfl⟩ := Option.map_eq_some_iff.1 defined
    exact owned r here

theorem called_evals (own : w.OwnsFrame frame) (name : String) (places : w.view s = w.view t) :
    w.Evals (Same fun r => w.Owns (.function r)) (frame.called name s) (frame.called name t) := by
  apply evals_heap
  intro h k heaps
  obtain ⟨same, owned⟩ := own.function? heaps name
  dsimp only
  rw [← same]
  apply evals_orFail _ _ places
  intro r found
  rcases Option.or_eq_some_iff.1 found with defined | ⟨-, held⟩
  · exact owned r defined
  · split at held
    · rename_i r' bound
      cases held
      exact own.get? bound
    · cases held

theorem property_evals {v : Value} (owned : w.Owns v) (name : String)
    (places : w.view s = w.view t) :
    w.Evals (Same w.Owns) (v.property name s) (v.property name t) := by
  cases v with
  | object r =>
    apply evals_heap
    intro h k heaps
    obtain ⟨same, entries⟩ := heaps.object owned
    rw [← same]
    exact evals_orFail _ (fun v found => Object.holds_get? entries found) places
  | _ => exact call?_evals owned name (by simp [OwnsAll]) _ places

def OwnsCallee (w : World) : Callee → Prop
  | .method r | .function r => w.Owns (.function r)
  | .cls r => w.Owns (.cls r)
  | .builtin => True

theorem callee_evals {v : Value} (owned : w.Owns v) (name : String)
    (places : w.view s = w.view t) :
    w.Evals (Same w.OwnsCallee) (v.callee name s) (v.callee name t) := by
  apply evals_heap
  intro h k heaps
  obtain ⟨same, classes⟩ := heaps.classOf? owned
  rw [← same]
  cases found : h.classOf? v with
  | some c =>
    have cls := classes c found
    obtain ⟨methods, functions⟩ := heaps.method? cls name
    dsimp only
    rw [← methods, ← (heaps.cls cls).1]
    apply (evals_orFail _ functions places).bind_same
    intro r function
    exact Alike.pure ⟨rfl, function⟩
  | none =>
    cases v with
    | object o =>
      obtain ⟨same', entries⟩ := heaps.object owned
      dsimp only
      rw [← same']
      cases bound : (h.object o).get? name with
      | none => exact Alike.pure ⟨rfl, trivial⟩
      | some u =>
        have held := Object.holds_get? entries bound
        cases u with
        | function r => exact Alike.pure ⟨rfl, held⟩
        | cls r => exact Alike.pure ⟨rfl, held⟩
        | _ => exact Alike.pure ⟨rfl, trivial⟩
    | _ => exact Alike.pure ⟨rfl, trivial⟩

theorem callOn_evals (uniform : Uniform host) (own : w.OwnsFrame frame) {v : Value}
    (owned : w.Owns v) (name : String) {callee : Callee} (known : w.OwnsCallee callee)
    {args : List Value} (all : w.OwnsAll args) (places : w.view s = w.view t) :
    w.Evals (Same w.Owns) (host.callOn frame v name callee args s)
      (host.callOn frame v name callee args t) := by
  cases callee with
  | method r => exact callMethod_evals uniform own known owned all places
  | function r => exact call_evals uniform own known all places
  | cls r => exact create_evals uniform own known all places
  | builtin => exact call?_evals owned name all _ places

mutual

theorem evaluate_evals (uniform : Uniform host) (own : w.OwnsFrame frame) (e : Expr) {e' : Expr}
    (same : e.relocate w.view = e'.relocate w.view) :
    w.Evals (Same w.Owns) (host.evaluate frame e) (host.evaluate frame e') := by
  have forms := Expr.relocates same
  cases e with
  | literal v s =>
    cases forms with
    | literal places => cases v <;> exact Alike.pure ⟨rfl, trivial⟩
  | name x s =>
    cases forms with
    | name places => exact lookup_evals own x places
  | binary op l r s =>
    cases forms with
    | binary left right places =>
      simp only [Host.evaluate]
      apply (evaluate_evals uniform own l left).bind_same
      intro u _
      apply (evaluate_evals uniform own r right).bind_same
      intro v owned
      apply evals_heap
      intro h k heaps
      exact evals_lift (heaps.apply op owned) places
  | negate e s =>
    cases forms with
    | negate inner places =>
      simp only [Host.evaluate]
      apply (evaluate_evals uniform own e inner).bind_same
      intro v _
      exact evals_lift ⟨rfl, fun u ran => owns_of_scalar (Value.scalar_negate ran)⟩ places
  | logic op l r s =>
    cases forms with
    | logic left right places =>
      simp only [Host.evaluate]
      apply (evals_truth (evaluate_evals uniform own l left)).bind_same
      intro b _
      refine Alike.ite (Alike.pure ⟨rfl, trivial⟩) ?_
      apply (evals_truth (evaluate_evals uniform own r right)).bind_same
      intro b' _
      exact Alike.pure ⟨rfl, trivial⟩
  | call x args s =>
    cases forms with
    | call arguments places =>
      simp only [Host.evaluate]
      apply (called_evals own x places).bind_same
      intro r owned
      apply (evaluateAll_evals uniform own args arguments).bind_same
      intro vs all
      exact call_evals uniform own owned all places
  | method e x args s =>
    cases forms with
    | method inner arguments places =>
      simp only [Host.evaluate]
      apply (evaluate_evals uniform own e inner).bind_same
      intro v owned
      apply (callee_evals owned x places).bind_same
      intro callee known
      apply (evaluateAll_evals uniform own args arguments).bind_same
      intro vs all
      exact callOn_evals uniform own owned x known all places
  | property e x s =>
    cases forms with
    | property inner places =>
      simp only [Host.evaluate]
      apply (evaluate_evals uniform own e inner).bind_same
      intro v owned
      exact property_evals owned x places
  | index e i s =>
    cases forms with
    | index inner key places =>
      simp only [Host.evaluate]
      apply (evaluate_evals uniform own e inner).bind_same
      intro v owned
      apply (evaluate_evals uniform own i key).bind_same
      intro u _
      apply evals_heap
      intro h k heaps
      exact evals_lift (heaps.indexed owned) places
  | group e s =>
    cases forms with
    | group inner places =>
      simp only [Host.evaluate]
      exact evaluate_evals uniform own e inner
  | list items s =>
    cases forms with
    | list items' places =>
      simp only [Host.evaluate]
      apply (evaluateAll_evals uniform own items items').bind_same
      intro vs all
      exact evals_newList fun v member => all v (List.mem_toArray.1 member)
  | object entries s =>
    cases forms with
    | object entries' places =>
      simp only [Host.evaluate]
      have none : w.OwnsEntries (Object.empty : Object Value).entries := by
        simp [OwnsEntries, Object.empty]
      apply (evaluateEntries_evals uniform own entries entries' none).bind_same
      intro o all
      exact evals_newObject all
  | create path args s =>
    cases forms with
    | create arguments places =>
      simp only [Host.evaluate]
      apply evals_heap
      intro h k heaps
      apply (evals_lift (heaps.resolveClass own path) places).bind_same
      intro c owned
      apply (evaluateAll_evals uniform own args arguments).bind_same
      intro vs all
      exact create_evals uniform own owned all places

theorem evaluateAll_evals (uniform : Uniform host) (own : w.OwnsFrame frame) (es : List Expr)
    {es' : List Expr} (same : relocateAll w.view es = relocateAll w.view es') :
    w.Evals (Same w.OwnsAll) (host.evaluateAll frame es) (host.evaluateAll frame es') := by
  cases es with
  | nil =>
    cases es' with
    | nil => exact Alike.pure ⟨rfl, by simp [OwnsAll]⟩
    | cons e' es' => cases same
  | cons e es =>
    cases es' with
    | nil => cases same
    | cons e' es' =>
      simp only [relocateAll, List.cons.injEq] at same
      simp only [Host.evaluateAll]
      apply (evaluate_evals uniform own e same.1).bind_same
      intro v owned
      apply (evaluateAll_evals uniform own es same.2).bind_same
      intro vs all
      exact Alike.pure ⟨rfl, List.forall_mem_cons.2 ⟨owned, all⟩⟩

theorem evaluateEntries_evals (uniform : Uniform host) (own : w.OwnsFrame frame)
    (es : List (String × Expr)) {es' : List (String × Expr)}
    (same : relocateEntries w.view es = relocateEntries w.view es')
    {o : Object Value} (start : w.OwnsEntries o.entries) :
    w.Evals (Same fun o => w.OwnsEntries o.entries) (host.evaluateEntries frame es o)
      (host.evaluateEntries frame es' o) := by
  match es, es' with
  | [], [] => exact Alike.pure ⟨rfl, start⟩
  | [], _ :: _ => cases same
  | _ :: _, [] => cases same
  | (key, e) :: es, (key', e') :: es' =>
    simp only [relocateEntries, List.cons.injEq, Prod.mk.injEq] at same
    obtain ⟨⟨rfl, first⟩, rest⟩ := same
    simp only [Host.evaluateEntries]
    apply (evaluate_evals uniform own e first).bind_same
    intro v owned
    exact evaluateEntries_evals uniform own es rest (Object.holds_set start owned)

end

end Script.World
