import Ccybe.Lib.CSem
import Mathlib.Control.Monad.Writer

/-!
# Computations with a log

A computation in `Logged ε` evaluates as one in `Eval` does and lists events on its way. A computation
that begins with defined operations is what comes `after` their events, so that a run is unrolled by
rewriting.
-/

namespace CSem

/-- An evaluation and the events on its way. -/
abbrev Logged (ε α : Type) := WriterT (List ε) Eval α

namespace Logged

variable {ε α β : Type}

/-- `x`, which is listed as the event `e`. -/
def event (e : ε) (x : Eval α) : Logged ε α := WriterT.mk (x.map fun a => (a, [e]))

/-- `x`, which is not listed. -/
def silent (x : Eval α) : Logged ε α := WriterT.mk (x.map fun a => (a, []))

/-- `x`, when the events `es` were already listed. -/
def after (es : List ε) (x : Logged ε α) : Logged ε α :=
  WriterT.mk (x.run.map fun p => (p.1, es ++ p.2))

/-- The evaluation without the events. -/
def value (x : Logged ε α) : Eval α := x.run.map Prod.fst

/-- `x` has the value `a`, and the events `es` are on its way. -/
def Does (x : Logged ε α) (a : α) (es : List ε) : Prop := x.run = .ok (a, es)

lemma run_bind (x : Logged ε α) (f : α → Logged ε β) :
    (x >>= f).run = x.run >>= fun p => (after p.2 (f p.1)).run := rfl

lemma run_after (es : List ε) (x : Logged ε α) :
    (after es x).run = x.run.map fun p => (p.1, es ++ p.2) := rfl

/-! ### Unrolling -/

lemma after_nil (x : Logged ε α) : after [] x = x := by
  refine WriterT.ext _ _ ?_
  rw [run_after]
  cases x.run <;> rfl

lemma after_after (es es' : List ε) (x : Logged ε α) : after es (after es' x) = after (es ++ es') x := by
  refine WriterT.ext _ _ ?_
  rw [run_after, run_after, run_after]
  cases x.run with
  | error u => rfl
  | ok p => simp [Except.map]

lemma event_bind {x : Eval α} {a : α} (h : x = .ok a) (e : ε) (f : α → Logged ε β) :
    event e x >>= f = after [e] (f a) := by
  rw [h]
  rfl

lemma silent_bind {x : Eval α} {a : α} (h : x = .ok a) (f : α → Logged ε β) :
    silent x >>= f = f a := by
  rw [h]
  exact after_nil (f a)

/-! ### The value -/

@[simp] lemma value_pure (a : α) : (pure a : Logged ε α).value = .ok a := rfl

@[simp] lemma value_event (e : ε) (x : Eval α) : (event e x).value = x := by
  cases x <;> rfl

@[simp] lemma value_silent (x : Eval α) : (silent x : Logged ε α).value = x := by
  cases x <;> rfl

@[simp] lemma value_after (es : List ε) (x : Logged ε α) : (after es x).value = x.value := by
  rw [value, value, run_after]
  cases x.run <;> rfl

@[simp] lemma value_bind (x : Logged ε α) (f : α → Logged ε β) :
    (x >>= f).value = x.value >>= fun a => (f a).value := by
  rw [value, value, run_bind]
  cases x.run with
  | error u => rfl
  | ok p => exact value_after p.2 (f p.1)

/-! ### The events -/

lemma does_pure (a : α) : Does (pure a : Logged ε α) a [] := rfl

lemma does_after_iff {x : Logged ε α} {a : α} {es es' : List ε} :
    Does (after es x) a es' ↔ ∃ es₀, Does x a es₀ ∧ es' = es ++ es₀ := by
  rw [Does, run_after, map_eq_ok]
  constructor
  · rintro ⟨p, hp, ⟨⟩⟩
    exact ⟨p.2, hp, rfl⟩
  · rintro ⟨es₀, h, rfl⟩
    exact ⟨(a, es₀), h, rfl⟩

lemma Does.after {x : Logged ε α} {a : α} {es : List ε} (h : Does x a es) (es' : List ε) :
    Does (after es' x) a (es' ++ es) :=
  does_after_iff.mpr ⟨es, h, rfl⟩

lemma Does.value_eq {x : Logged ε α} {a : α} {es : List ε} (h : Does x a es) : x.value = .ok a := by
  rw [Does] at h
  rw [value, h]
  rfl

end Logged

end CSem
