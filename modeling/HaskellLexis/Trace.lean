/-!
# Traces

All that a producer will deliver, in order, until it is done or fails. A
reader takes items one at a time and may stop after any of them; each item
therefore carries the state that the producer is left in, and the remarks made
before an item are only made when it is asked for.

* `Trace.items`, `Trace.remarks`, `Trace.result`: what a whole run comes to;
* `Trace.take`: a few items, and the trace that is left.
-/

namespace HaskellLexis

inductive Trace (σ ν α ε : Type) where
  | remark (n : ν) (rest : Trace σ ν α ε)
  | item (a : α) (left : σ) (rest : Trace σ ν α ε)
  | done (left : σ)
  | failed (e : ε) (left : σ)

namespace Trace

variable {σ ν α ε : Type}

def items : Trace σ ν α ε → List α
  | remark _ t => t.items
  | item a _ t => a :: t.items
  | done _ | failed _ _ => []

def remarks : Trace σ ν α ε → List ν
  | remark n t => n :: t.remarks
  | item _ _ t => t.remarks
  | done _ | failed _ _ => []

def error? : Trace σ ν α ε → Option ε
  | remark _ t | item _ _ t => t.error?
  | done _ => none
  | failed e _ => some e

/-- All items, or nothing but the error. -/
def result (t : Trace σ ν α ε) : Except ε (List α) :=
  match t.error? with
  | none => .ok t.items
  | some e => .error e

def remarkAll (ns : List ν) (t : Trace σ ν α ε) : Trace σ ν α ε := ns.foldr remark t

def itemAll (xs : List (α × σ)) (t : Trace σ ν α ε) : Trace σ ν α ε :=
  xs.foldr (fun x t => item x.1 x.2 t) t

/-- How an attempt to take items ended: with as many as were asked for, at the
end, or at an error. -/
inductive Ending (ε : Type) where
  | paused
  | done
  | failed (e : ε)

/-- `left` is the state after the last step, if one was made, and `rest` what
can still be taken. -/
structure Taken (σ ν α ε : Type) where
  items : List α
  remarks : List ν
  ending : Ending ε
  left : Option σ
  rest : Option (Trace σ ν α ε)

/-- Takes up to `count` items, or all of them. -/
def take (count : Option Nat) : Trace σ ν α ε → Taken σ ν α ε
  | t@(remark n r) =>
    if count = some 0 then ⟨[], [], .paused, none, some t⟩
    else
      let k := take count r
      { k with remarks := n :: k.remarks }
  | t@(item a s r) =>
    if count = some 0 then ⟨[], [], .paused, none, some t⟩
    else
      let k := take (count.map (· - 1)) r
      { k with items := a :: k.items, left := some (k.left.getD s) }
  | t@(done s) =>
    if count = some 0 then ⟨[], [], .paused, none, some t⟩ else ⟨[], [], .done, some s, none⟩
  | t@(failed e s) =>
    if count = some 0 then ⟨[], [], .paused, none, some t⟩
    else ⟨[], [], .failed e, some s, none⟩

theorem items_remarkAll (ns : List ν) (t : Trace σ ν α ε) :
    (remarkAll ns t).items = t.items := by
  induction ns with
  | nil => rfl
  | cons n ns ih => simpa [remarkAll, items] using ih

theorem remarks_remarkAll (ns : List ν) (t : Trace σ ν α ε) :
    (remarkAll ns t).remarks = ns ++ t.remarks := by
  induction ns with
  | nil => rfl
  | cons n ns ih => simpa [remarkAll, remarks] using ih

theorem error?_remarkAll (ns : List ν) (t : Trace σ ν α ε) :
    (remarkAll ns t).error? = t.error? := by
  induction ns with
  | nil => rfl
  | cons n ns ih => simpa [remarkAll, error?] using ih

theorem items_itemAll (xs : List (α × σ)) (t : Trace σ ν α ε) :
    (itemAll xs t).items = xs.map Prod.fst ++ t.items := by
  induction xs with
  | nil => rfl
  | cons x xs ih => simpa [itemAll, items] using ih

theorem remarks_itemAll (xs : List (α × σ)) (t : Trace σ ν α ε) :
    (itemAll xs t).remarks = t.remarks := by
  induction xs with
  | nil => rfl
  | cons x xs ih => simpa [itemAll, remarks] using ih

theorem error?_itemAll (xs : List (α × σ)) (t : Trace σ ν α ε) :
    (itemAll xs t).error? = t.error? := by
  induction xs with
  | nil => rfl
  | cons x xs ih => simpa [itemAll, error?] using ih

end Trace

end HaskellLexis
