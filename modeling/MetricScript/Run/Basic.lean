import MetricScript.Run.State

/-!
Computations within a run. They read the setting, change the state, and end with a value, with a
failure, or with a crash of the source; what they did to the state before a failure or a crash
stays.
-/

namespace MetricScript

/-- Why a computation ended without a value. -/
inductive Stop where
  | failed (f : Failure)
  /-- The source crashed, perhaps with a message. -/
  | crashed (message : Option String)

/-- A computation within a run. -/
def Run (α : Type) : Type := Setting → State → Except Stop α × State

namespace Run

variable {α β : Type}

/-- Goes on with the value of a computation, if it has one. -/
def andThen (x : Run α) (next : α → Run β) : Run β := fun setting s =>
  match x setting s with
  | (.ok a, s') => next a setting s'
  | (.error stop, s') => (.error stop, s')

instance : Monad Run where
  pure a := fun _ s => (.ok a, s)
  bind := andThen

theorem pure_apply (a : α) (setting : Setting) (s : State) :
    (pure a : Run α) setting s = (.ok a, s) := rfl

theorem bind_apply_ok {x : Run α} {next : α → Run β} {setting : Setting} {s s' : State} {a : α}
    (h : x setting s = (.ok a, s')) : (x >>= next) setting s = next a setting s' := by
  change andThen x next setting s = _
  rw [andThen, h]

theorem bind_apply_error {x : Run α} {next : α → Run β} {setting : Setting} {s s' : State}
    {stop : Stop} (h : x setting s = (.error stop, s')) :
    (x >>= next) setting s = (.error stop, s') := by
  change andThen x next setting s = _
  rw [andThen, h]

/-- A computation ends with a value or stops, and leaves a state either way. -/
theorem apply_cases (x : Run α) (setting : Setting) (s : State) :
    (∃ a s', x setting s = (.ok a, s')) ∨ ∃ stop s', x setting s = (.error stop, s') := by
  rcases h : x setting s with ⟨a | stop, s'⟩
  · exact Or.inr ⟨_, s', rfl⟩
  · exact Or.inl ⟨_, s', rfl⟩

theorem map_id_apply (x : Run α) : id <$> x = x := by
  funext setting s
  rcases apply_cases x setting s with ⟨a, s', h⟩ | ⟨stop, s', h⟩
  · exact (bind_apply_ok h).trans h.symm
  · exact (bind_apply_error h).trans h.symm

theorem bind_assoc_apply {γ : Type} (x : Run α) (f : α → Run β) (g : β → Run γ) :
    x >>= f >>= g = x >>= fun a => f a >>= g := by
  funext setting s
  rcases apply_cases x setting s with ⟨a, s', h⟩ | ⟨stop, s', h⟩
  · rw [bind_apply_ok h]
    rcases apply_cases (f a) setting s' with ⟨b, s'', h'⟩ | ⟨stop, s'', h'⟩
    · rw [bind_apply_ok ((bind_apply_ok h).trans h'), bind_apply_ok h']
    · rw [bind_apply_error ((bind_apply_ok h).trans h'), bind_apply_error h']
  · rw [bind_apply_error (bind_apply_error h), bind_apply_error h]

instance : LawfulMonad Run :=
  LawfulMonad.mk' Run map_id_apply (fun _ _ => rfl) bind_assoc_apply

def setting : Run Setting := fun setting s => (.ok setting, s)

def state : Run State := fun _ s => (.ok s, s)

def change (f : State → State) : Run Unit := fun _ s => (.ok (), f s)

def now : Run Timestamp := fun setting s => (.ok setting.now, s)

/-- Ends with a failure, which is not recorded by this. -/
def fail (f : Failure) : Run α := fun _ s => (.error (.failed f), s)

def crash (message : Option String) : Run α := fun _ s => (.error (.crashed message), s)

/-- Ends with the value or the failure of a result. -/
def ofExcept : Except Failure α → Run α
  | .ok a => pure a
  | .error f => fail f

def record (f : Failure) : Run Unit :=
  change fun s => { s with failures := s.failures ++ [f] }

/-- Turns a failure into a result; a crash goes through. -/
def attempt (x : Run α) : Run (Except Failure α) := fun setting s =>
  match x setting s with
  | (.ok a, s') => (.ok (.ok a), s')
  | (.error (.failed f), s') => (.ok (.error f), s')
  | (.error (.crashed message), s') => (.error (.crashed message), s')

/-- The value of a result, missing if it is a failure, which is then recorded. -/
def settleResult : Except Failure α → Run (Option α)
  | .ok a => pure (some a)
  | .error f => do
    record f
    pure none

/-- The value of a computation, missing if it failed; the failure is recorded. -/
def settle (x : Run α) : Run (Option α) := do
  settleResult (← attempt x)

/-- What a crash is called that came without a message. -/
def namelessCrash : String := "unknown panic"

/-- Runs to the end, whatever happens: a failure or a crash is recorded. -/
def contain (x : Run Unit) : Run Unit := fun setting s =>
  match x setting s with
  | (.ok (), s') => (.ok (), s')
  | (.error (.failed f), s') => record f setting s'
  | (.error (.crashed message), s') =>
    record (.crash (message.getD namelessCrash)) setting s'

end Run

end MetricScript
