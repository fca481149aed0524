import LuaBytecode.Profile
import LuaBytecode.Settings
import LuaBytecode.Text.Hex

/-! Sessions: the profile of this machine, which is found when it is first needed, and a journal of
what was done. -/
namespace LuaBytecode

inductive Event where
  | derived (profile : Profile)
  | opened (size count : Nat)
  | traced (index word : Nat) (text : String)
  | serialized (count size : Nat)
  deriving DecidableEq, Repr

namespace Event

def message : Event → String
  | .derived profile => s!"Derived host profile: {profile.describe}"
  | .opened size count => s!"Opened chunk: {size} bytes, {count} instructions"
  | .traced index word text =>
      let place := String.ofList (Text.padLeft 5 ' ' (Text.decimalChars index))
      s!"{place}  {Text.wordHex word}  {text}"
  | .serialized count size => s!"Serialized chunk: {count} instructions, {size} bytes"

end Event

structure Session where
  /-- The profile of this machine once it is known. -/
  host : Option Profile := none
  /-- Events, oldest first. -/
  journal : List Event := []
  deriving DecidableEq, Repr

/-- A computation in a session. What it did to the session stays when it fails. -/
abbrev Run := ReaderT Settings (ExceptT Fault (StateM Session))

namespace Session
variable {α β : Type}

def run (action : Run α) (settings : Settings) (session : Session) : Except Fault α × Session :=
  (action settings).run session

@[simp] theorem run_pure (a : α) (t : Settings) (s : Session) : run (pure a) t s = (.ok a, s) := rfl

/-- A computation goes on from where the one before it left the session, unless that failed. -/
theorem run_bind (x : Run α) (f : α → Run β) (t : Settings) (s : Session) :
    run (x >>= f) t s =
      match run x t s with
      | (.ok a, s) => run (f a) t s
      | (.error fault, s) => (.error fault, s) := by
  show (match (x t).run s with
    | (outcome, s) => (ExceptT.bindCont (fun a => f a t) outcome).run s) = _
  simp only [run]
  rcases (x t).run s with ⟨fault | a, s'⟩ <;> rfl

@[simp] theorem run_lift (outcome : Except Fault α) (t : Settings) (s : Session) :
    run (liftM outcome) t s = (outcome, s) := rfl

@[simp] theorem run_throw (fault : Fault) (t : Settings) (s : Session) :
    run (throw fault : Run α) t s = (.error fault, s) := rfl

/-- What a failed computation did to the session stays when the fault is caught. -/
theorem run_tryCatch (x : Run α) (f : Fault → Run α) (t : Settings) (s : Session) :
    run (tryCatch x f) t s =
      match run x t s with
      | (.ok a, s) => (.ok a, s)
      | (.error fault, s) => run (f fault) t s := by
  simp only [run, tryCatch, tryCatchThe, MonadExceptOf.tryCatch, ExceptT.tryCatch, ExceptT.run,
    ExceptT.mk, bind, StateT.bind]
  rcases (x t) s with ⟨fault | a, s'⟩ <;> rfl

def record (events : List Event) : Run Unit :=
  modify fun s => { s with journal := s.journal ++ events }

@[simp] theorem run_record (events : List Event) (t : Settings) (s : Session) :
    run (record events) t s = (.ok (), { s with journal := s.journal ++ events }) := rfl

def reference (settings : Settings) : Except Fault Bytes :=
  match settings.referenceChunk with
  | none => .ok Profile.referenceChunk
  | some text =>
    match Text.Hex.decode text with
    | .ok bytes => .ok bytes
    | .error position => .error (.referenceNotHex position)

/-- The profile of a sample, or of the reference chunk if there is none. -/
def derive (sample : Option Bytes) : Run Profile := do
  let bytes ← match sample with
    | some bytes => pure bytes
    | none => reference (← read)
  let profile ← Profile.ofHeader bytes
  record [.derived profile]
  return profile

/-- The profile of this machine, which is kept once it is derived. -/
def hostProfile : Run Profile := do
  match (← get).host with
  | some profile => return profile
  | none =>
    let profile ← derive none
    modify fun s => { s with host := some profile }
    return profile

end Session
end LuaBytecode
