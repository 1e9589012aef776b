import FeelingsOverflow.Functionality.FirebaseMethods
import FeelingsOverflow.Execution.Run

open Firestore FirebaseMethods

structure Account where
  email : String
  password : String
  uid : Uid
  deriving DecidableEq, Repr

namespace RegistrationScreen

structure Form where
  email : String
  password : String
  confirmPassword : String
  username : String
  deriving DecidableEq, Repr

def Form.passwordConfirmed (f : Form) : Bool :=
  f.password = f.confirmPassword

def Form.notAllFieldsFilled (f : Form) : Bool :=
  f.password = "" ∨ (f.username = "" ∨ f.email = "")

end RegistrationScreen

namespace LoginScreen

def notAllFieldsFilled (email password : String) : Bool :=
  password = "" ∨ email = ""

end LoginScreen

open RegistrationScreen

-- What a device shows. While a handler awaits an operation, a spinner covers the screen.
inductive View
  | login
  | registration
  | creating (form : Form)
  | registering (form : Form)
  | loggingIn (email password : String)
  | dashboard
  deriving DecidableEq, Repr

-- The sign-in which a handler awaits, and where it goes back to if it fails.
def View.signIn : View → Option (String × String × View)
  | registering form         => some (form.email, form.password, registration)
  | loggingIn email password => some (email, password, login)
  | _                        => none

theorem View.signIn_back {v : View} (h : v.signIn = some (email, password, back)) :
    back = registration ∨ back = login := by
  cases v <;> simp_all [signIn]

structure Device where
  view : View
  currentUser : Option Uid
  deriving DecidableEq, Repr

-- The arguments of a call of `settingNewProfile`.
structure ProfileWrite where
  uid : Uid
  username : String
  email : String
  deriving DecidableEq, Repr

def ProfileWrite.profile (w : ProfileWrite) : Document :=
  newProfile w.uid w.username w.email

-- The accounts, the profiles, the writes of profiles that are under way, and the devices.
structure Service where
  accounts : List Account
  users : Users
  writes : List ProfileWrite
  devices : Nat → Device

-- What happens on a device `d`: its user navigates and taps, and what it awaits succeeds or fails.
-- No handler awaits the writes.
inductive AuthEvent
  | openRegistration (d : Nat)
  | openLogin (d : Nat)
  | signUp (d : Nat) (form : Form)
  | logIn (d : Nat) (email password : String)
  | createUser (d : Nat) (result : Option Uid)
  | signIn (d : Nat) (ok : Bool)
  | write (i : Nat) (ok : Bool)
  | signOut (d : Nat)
  deriving DecidableEq, Repr

namespace Service

def start : Service where
  accounts  := []
  users     := fun _ => none
  writes    := []
  devices _ := ⟨.login, none⟩

def setDevice (s : Service) (d : Nat) (device : Device) : Service :=
  { s with devices := Function.update s.devices d device }

def goTo (s : Service) (d : Nat) (v : View) : Service :=
  s.setDevice d { s.devices d with view := v }

-- The account that the sign-in awaited on `d` is for, if its email and password are right.
def awaited (s : Service) (d : Nat) : Option Account := do
  let (email, password, _) ← (s.devices d).view.signIn
  s.accounts.find? fun a => a.email = email ∧ a.password = password

-- The account for a form has been created, and the handler has called `settingNewProfile`.
def created (s : Service) (d : Nat) (form : Form) (uid : Uid) : Service where
  accounts := s.accounts ++ [⟨form.email, form.password, uid⟩]
  users    := s.users
  writes   := s.writes ++ [⟨uid, form.username, form.email⟩]
  devices  := Function.update s.devices d ⟨.registering form, some uid⟩

-- The write with index `i` has ended.
def written (s : Service) (i : Nat) (w : ProfileWrite) (ok : Bool) : Service where
  accounts := s.accounts
  users    :=
    if ok then (settingNewProfile w.uid w.username w.email).eval perform s.users else s.users
  writes   := s.writes.eraseIdx i
  devices  := s.devices

def step (s : Service) : AuthEvent → Option Service
  | .openRegistration d =>
    if (s.devices d).view = .login then some (s.goTo d .registration) else none
  | .openLogin d =>
    if (s.devices d).view = .registration then some (s.goTo d .login) else none
  | .signUp d form =>
    if (s.devices d).view = .registration then
      if ¬form.passwordConfirmed ∨ form.notAllFieldsFilled then some s
      else some (s.goTo d (.creating form))
    else none
  | .logIn d email password =>
    if (s.devices d).view = .login then
      if LoginScreen.notAllFieldsFilled email password then some s
      else some (s.goTo d (.loggingIn email password))
    else none
  | .createUser d result =>
    match (s.devices d).view, result with
    | .creating form, some uid =>
      if form.email ∈ s.accounts.map Account.email ∨ uid ∈ s.accounts.map Account.uid then none
      else some (s.created d form uid)
    | .creating _, none => some (s.goTo d .registration)
    | _, _              => none
  | .signIn d ok =>
    match (s.devices d).view.signIn, s.awaited d, ok with
    | some _, some account, true    => some (s.setDevice d ⟨.dashboard, some account.uid⟩)
    | some (_, _, back), _, false   => some (s.goTo d back)
    | _, _, _                       => none
  | .write i ok => s.writes[i]?.map fun w => s.written i w ok
  | .signOut d =>
    if (s.devices d).view = .dashboard then some (s.setDevice d ⟨.login, none⟩) else none

-- What an event does to the service.
inductive Step (s : Service) : AuthEvent → Service → Prop
  | stay : (∀ d, e ≠ .signIn d true) → (∀ i, e ≠ .write i false) → Step s e s
  | goTo : (∀ d, e ≠ .signIn d true) → (∀ i, e ≠ .write i false) → v ≠ .dashboard →
    (∀ form, v = .creating form → form.email ≠ "") → Step s e (s.goTo d v)
  | createUser :
    form.email ∉ s.accounts.map Account.email → uid ∉ s.accounts.map Account.uid →
    (s.devices d).view = .creating form →
    Step s (.createUser d (some uid)) (s.created d form uid)
  | signIn : s.awaited d = some account →
    Step s (.signIn d true) (s.setDevice d ⟨.dashboard, some account.uid⟩)
  | write : s.writes[i]? = some w → Step s (.write i ok) (s.written i w ok)
  | signOut : Step s (.signOut d) (s.setDevice d ⟨.login, none⟩)

theorem step_cases {s s' : Service} (h : s.step e = some s') : s.Step e s' := by
  cases e
  case openRegistration d =>
    simp only [step, Option.ite_none_right_eq_some, Option.some.injEq] at h
    exact h.right ▸ .goTo (by simp) (by simp) (by simp) (by simp)
  case openLogin d =>
    simp only [step, Option.ite_none_right_eq_some, Option.some.injEq] at h
    exact h.right ▸ .goTo (by simp) (by simp) (by simp) (by simp)
  case signUp d form =>
    simp only [step, Option.ite_none_right_eq_some] at h
    have ⟨_, h⟩ := h
    split at h
    case isTrue    => exact Option.some.inj h ▸ .stay (by simp) (by simp)
    case isFalse n =>
      refine Option.some.inj h ▸ .goTo (by simp) (by simp) (by simp) ?_
      simp_all [Form.notAllFieldsFilled]
  case logIn d email password =>
    simp only [step, Option.ite_none_right_eq_some] at h
    have ⟨_, h⟩ := h
    split at h
    case isTrue  => exact Option.some.inj h ▸ .stay (by simp) (by simp)
    case isFalse => exact Option.some.inj h ▸ .goTo (by simp) (by simp) (by simp) (by simp)
  case createUser d result =>
    simp only [step] at h
    split at h
    case h_1 form uid hv =>
      simp only [Option.ite_none_left_eq_some, Option.some.injEq, not_or] at h
      exact h.right ▸ .createUser h.left.left h.left.right hv
    case h_2 => exact Option.some.inj h ▸ .goTo (by simp) (by simp) (by simp) (by simp)
    case h_3 => cases h
  case signIn d ok =>
    simp only [step] at h
    split at h
    case h_1 ha => exact Option.some.inj h ▸ .signIn ha
    case h_2 hv =>
      refine Option.some.inj h ▸ .goTo (by simp) (by simp) ?_ ?_ <;>
        rcases View.signIn_back hv with rfl | rfl <;> simp
    case h_3 => cases h
  case write i ok =>
    simp only [step, Option.map_eq_some_iff] at h
    have ⟨w, hw, h⟩ := h
    exact h ▸ .write hw
  case signOut d =>
    simp only [step, Option.ite_none_right_eq_some, Option.some.injEq] at h
    exact h.right ▸ .signOut

end Service
