import LuaBytecode.Session

/-! Outcomes of computations in parts: the whole gives a result exactly if every part does. -/
namespace LuaBytecode

namespace Outcome
variable {α β : Type}

theorem bind_eq_ok_iff {x : Except Fault α} {f : α → Except Fault β} {b : β} :
    (x >>= f) = .ok b ↔ ∃ a, x = .ok a ∧ f a = .ok b := by
  cases x with
  | ok a =>
    constructor
    · intro h
      exact ⟨a, rfl, h⟩
    · rintro ⟨a', h, hf⟩
      cases h
      exact hf
  | error fault =>
    constructor
    · intro h
      cases h
    · rintro ⟨a, h, _⟩
      cases h

theorem bind_eq_error_iff {x : Except Fault α} {f : α → Except Fault β} {fault : Fault} :
    (x >>= f) = .error fault ↔ x = .error fault ∨ ∃ a, x = .ok a ∧ f a = .error fault := by
  cases x with
  | ok a =>
    constructor
    · intro h
      exact .inr ⟨a, rfl, h⟩
    · rintro (h | ⟨a', h, hf⟩)
      · cases h
      · cases h
        exact hf
  | error fault' =>
    constructor
    · intro h
      cases h
      exact .inl rfl
    · rintro (h | ⟨a, h, _⟩)
      · cases h
        rfl
      · cases h

theorem ok_bind (a : α) (f : α → Except Fault β) : ((.ok a : Except Fault α) >>= f) = f a := rfl

theorem pure_eq_ok_iff {a b : α} : (pure a : Except Fault α) = .ok b ↔ a = b :=
  ⟨fun h => Except.ok.inj h, fun h => congrArg Except.ok h⟩

/-- The fault of a computation that gives no result. -/
def fault? : Except Fault α → Option Fault
  | .ok _ => none
  | .error fault => some fault

theorem fault?_eq_some_iff {x : Except Fault α} {fault : Fault} :
    fault? x = some fault ↔ x = .error fault := by
  cases x <;> simp [fault?]

end Outcome

/-- A computation on some state. What it did to the state stays when it fails. -/
abbrev InPlace (σ : Type) := ExceptT Fault (StateM σ)

namespace InPlace
variable {σ α β : Type}

/-- The outcome of a computation and the state that it leaves. -/
def run (x : InPlace σ α) (s : σ) : Except Fault α × σ := (ExceptT.run x).run s

@[simp] theorem run_pure (a : α) (s : σ) : run (pure a) s = (.ok a, s) := rfl

@[simp] theorem run_throw (fault : Fault) (s : σ) :
    run (throw fault : InPlace σ α) s = (.error fault, s) := rfl

@[simp] theorem run_get (s : σ) : run get s = (.ok s, s) := rfl

@[simp] theorem run_set (s s' : σ) : run (set s') s = (.ok (), s') := rfl

@[simp] theorem run_lift (outcome : Except Fault α) (s : σ) :
    run (liftM outcome : InPlace σ α) s = (outcome, s) := rfl

theorem run_ite (c : Prop) [Decidable c] (x y : InPlace σ α) (s : σ) :
    run (if c then x else y) s = if c then run x s else run y s := by
  split <;> rfl

/-- A computation goes on with the state as the part before it left it, unless that failed. -/
theorem run_bind (x : InPlace σ α) (f : α → InPlace σ β) (s : σ) :
    run (x >>= f) s =
      match run x s with
      | (.ok a, s) => run (f a) s
      | (.error fault, s) => (.error fault, s) := by
  show (match (ExceptT.run x).run s with
    | (outcome, s) => (ExceptT.bindCont f outcome).run s) = _
  simp only [run]
  rcases (ExceptT.run x).run s with ⟨fault | a, s'⟩ <;> rfl

theorem run_bind_ok {x : InPlace σ α} {f : α → InPlace σ β} {a : α} {s s' : σ}
    (h : run x s = (.ok a, s')) : run (x >>= f) s = run (f a) s' := by
  rw [run_bind, h]

theorem run_bind_error {x : InPlace σ α} {fault : Fault} {s : σ} (h : (run x s).1 = .error fault)
    (f : α → InPlace σ β) : run (x >>= f) s = (.error fault, (run x s).2) := by
  have hrun : run x s = (.error fault, (run x s).2) := Prod.ext h rfl
  rw [run_bind, hrun]

end InPlace

namespace Session
variable {α β : Type} {t : Settings} {s s' : Session}

theorem run_bind_ok {x : Run α} {f : α → Run β} {a : α} (h : run x t s = (.ok a, s')) :
    run (x >>= f) t s = run (f a) t s' := by
  rw [run_bind, h]

theorem run_bind_eq_ok_iff {x : Run α} {f : α → Run β} {b : β} :
    run (x >>= f) t s = (.ok b, s') ↔
      ∃ a s₁, run x t s = (.ok a, s₁) ∧ run (f a) t s₁ = (.ok b, s') := by
  rw [run_bind]
  rcases run x t s with ⟨fault | a, s₁⟩
  · simp
  · constructor
    · intro h
      exact ⟨a, s₁, rfl, h⟩
    · rintro ⟨a', s₂, h, hf⟩
      cases h
      exact hf

theorem run_tryCatch_ok {x : Run α} {f : Fault → Run α} {a : α} (h : run x t s = (.ok a, s')) :
    run (tryCatch x f) t s = (.ok a, s') := by
  rw [run_tryCatch, h]

theorem run_tryCatch_error {x : Run α} {f : Fault → Run α} {fault : Fault}
    (h : run x t s = (.error fault, s')) : run (tryCatch x f) t s = run (f fault) t s' := by
  rw [run_tryCatch, h]

end Session
end LuaBytecode
