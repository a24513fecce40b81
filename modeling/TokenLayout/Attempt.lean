import TokenLayout.Fault

/-!
# Attempts

A computation on a state that may stop with a fault. What it did to the state before it stopped
stays done.
-/

namespace TokenLayout

/-- A computation on a state of type `σ` that gives an `α` or a fault. -/
structure Attempt (σ α : Type) where
  run : σ → Except Fault α × σ

namespace Attempt

variable {σ τ α β : Type}

instance : Monad (Attempt σ) where
  pure a := ⟨fun s => (.ok a, s)⟩
  bind x f := ⟨fun s =>
    match x.run s with
    | (.ok a, s) => (f a).run s
    | (.error fault, s) => (.error fault, s)⟩

@[simp] theorem run_pure (a : α) (s : σ) : (pure a : Attempt σ α).run s = (.ok a, s) :=
  rfl

theorem run_bind (x : Attempt σ α) (f : α → Attempt σ β) (s : σ) :
    (x >>= f).run s =
      match x.run s with
      | (.ok a, s) => (f a).run s
      | (.error fault, s) => (.error fault, s) :=
  rfl

/-- The state. -/
def state : Attempt σ σ :=
  ⟨fun s => (.ok s, s)⟩

/-- Changes the state. -/
def update (f : σ → σ) : Attempt σ Unit :=
  ⟨fun s => (.ok (), f s)⟩

/-- Stops. -/
def fail (fault : Fault) : Attempt σ α :=
  ⟨fun s => (.error fault, s)⟩

/-- Goes on with a value that may be a fault. -/
def ofExcept (result : Except Fault α) : Attempt σ α :=
  ⟨fun s => (result, s)⟩

/-- Does something on a condition. -/
def when (condition : Bool) (x : Attempt σ Unit) : Attempt σ Unit :=
  if condition then x else pure ()

/-- The value in an option, or a fault if there is none. -/
def require (value : Option α) (fault : Fault) : Attempt σ α :=
  match value with
  | some a => pure a
  | none => fail fault

/-- Works on a part of the state. -/
def within (part : σ → τ) (replace : τ → σ → σ) (x : Attempt τ α) : Attempt σ α :=
  ⟨fun s =>
    let (result, t) := x.run (part s)
    (result, replace t s)⟩

/-- What became of an attempt, as an attempt that does not stop. -/
def outcome (x : Attempt σ α) : Attempt σ (Except Fault α) :=
  ⟨fun s =>
    let (result, s) := x.run s
    (.ok result, s)⟩

@[simp] theorem run_state (s : σ) : (state : Attempt σ σ).run s = (.ok s, s) :=
  rfl

@[simp] theorem run_update (f : σ → σ) (s : σ) : (update f).run s = (.ok (), f s) :=
  rfl

@[simp] theorem run_fail (fault : Fault) (s : σ) :
    (fail fault : Attempt σ α).run s = (.error fault, s) :=
  rfl

@[simp] theorem run_ofExcept (result : Except Fault α) (s : σ) :
    (ofExcept result : Attempt σ α).run s = (result, s) :=
  rfl

theorem run_outcome (x : Attempt σ α) (s : σ) :
    x.outcome.run s = (.ok (x.run s).1, (x.run s).2) :=
  rfl

end Attempt

end TokenLayout
