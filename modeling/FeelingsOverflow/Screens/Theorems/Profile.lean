import FeelingsOverflow.Screens.Authentication

open Execution Firestore FirebaseMethods

namespace Service

variable {s s' : Service} {e : AuthEvent}

-- The document of the user exists, with what `settingNewProfile` wrote.
def HasProfile (s : Service) (uid : Uid) : Prop :=
  ∃ username email, s.users uid = some (newProfile uid username email)

-- Some way to go on creates what is missing of the account and its profile.
def Repairable (s : Service) (email : String) : Prop :=
  ∃ es s', Run (Fires step) s es s' ∧ ∃ a ∈ s'.accounts, a.email = email ∧ s'.HasProfile a.uid

-- A device shows the dashboard only to a user with a profile.
def Shows (s : Service) (device : Device) : Prop :=
  device.view = .dashboard → ∃ uid, device.currentUser = some uid ∧ s.HasProfile uid

structure Sound (s : Service) : Prop where
  shown      : ∀ d, s.Shows (s.devices d)
  repairable : ∀ email, email ≠ "" → s.Repairable email

structure Consistent (s : Service) : Prop where
  emails   : (s.accounts.map Account.email).Nodup
  filled   : ∀ a ∈ s.accounts, a.email ≠ ""
  forms    : ∀ d form, (s.devices d).view = .creating form → form.email ≠ ""
  writes   : (s.writes.map ProfileWrite.uid).Nodup
  pending  : ∀ w ∈ s.writes, s.users w.uid = none
  known    : ∀ w ∈ s.writes, w.uid ∈ s.accounts.map Account.uid
  profiles : ∀ uid, s.users uid ≠ none → uid ∈ s.accounts.map Account.uid

theorem forms_update (h : ∀ d form, (s.devices d).view = .creating form → form.email ≠ "")
    (hv : ∀ form, v = .creating form → form.email ≠ "") (d d' : Nat) (form : RegistrationScreen.Form)
    (hd : (Function.update s.devices d ⟨v, u⟩ d').view = .creating form) : form.email ≠ "" := by
  rw [Function.update_apply] at hd
  split at hd
  case isTrue  => exact hv form hd
  case isFalse => exact h d' form hd

theorem perm_of_getElem? {xs : List α} (hx : xs[i]? = some x) :
    List.Perm (x :: xs.eraseIdx i) xs := by
  have ⟨hi, h⟩ := List.getElem?_eq_some_iff.mp hx
  exact h ▸ List.getElem_cons_eraseIdx_perm hi

theorem Consistent.uid_not_mem (hc : s.Consistent) (hw : s.writes[i]? = some w) :
    w.uid ∉ (s.writes.eraseIdx i).map ProfileWrite.uid ∧
      ((s.writes.eraseIdx i).map ProfileWrite.uid).Nodup :=
  List.nodup_cons.mp <| (perm_of_getElem? hw).map _ |>.nodup_iff.mpr hc.writes

theorem consistent_start : start.Consistent where
  emails   := .nil
  filled   := by simp [start]
  forms    := by simp [start]
  writes   := .nil
  pending  := by simp [start]
  known    := by simp [start]
  profiles := by simp [start]

theorem Consistent.created (hc : s.Consistent) (he : form.email ∉ s.accounts.map Account.email)
    (hu : uid ∉ s.accounts.map Account.uid) (hd : (s.devices d).view = .creating form) :
    (s.created d form uid).Consistent where
  emails   := by simpa [Service.created, List.nodup_append] using ⟨hc.emails, by simpa using he⟩
  filled   := by
    simpa [Service.created, or_imp, forall_and] using ⟨hc.filled, hc.forms d form hd⟩
  forms    := forms_update hc.forms (by simp) d
  writes   := by
    have h : ∀ w ∈ s.writes, w.uid ≠ uid := fun w hw he => hu (he ▸ hc.known w hw)
    simpa [Service.created, List.nodup_append] using ⟨hc.writes, h⟩
  pending  := by
    have h : s.users uid = none := by_contra fun h => hu (hc.profiles uid h)
    simpa [Service.created, or_imp, forall_and] using ⟨hc.pending, h⟩
  known    := by
    intro w hw
    rw [Service.created, List.map_append, List.mem_append]
    cases List.mem_append.mp hw
    case inl hw => exact .inl <| hc.known w hw
    case inr hw => simp [List.mem_singleton.mp hw]
  profiles := by
    intro u hp
    rw [Service.created, List.map_append, List.mem_append]
    exact .inl <| hc.profiles u hp

theorem users_written (s : Service) (i : Nat) (w : ProfileWrite) (uid : Uid) :
    (s.written i w true).users uid = if uid = w.uid then some w.profile else s.users uid := by
  simp [written, settingNewProfile, Firestore.set, Async.perform, Async.eval, Async.outcome,
    perform, Function.update_apply, ProfileWrite.profile]

theorem Consistent.written (hc : s.Consistent) (hw : s.writes[i]? = some w) (ok : Bool) :
    (s.written i w ok).Consistent where
  emails   := hc.emails
  filled   := hc.filled
  forms    := hc.forms
  writes   := (hc.uid_not_mem hw).right
  known    := fun w hw => hc.known w (List.mem_of_mem_eraseIdx hw)
  pending  := by
    intro w' hw'
    have hp := hc.pending w' (List.mem_of_mem_eraseIdx hw')
    cases ok
    case false => exact hp
    case true  =>
      have h : w'.uid ≠ w.uid := fun h => (hc.uid_not_mem hw).left (h ▸ List.mem_map_of_mem hw')
      rw [users_written, if_neg h, hp]
  profiles := by
    intro u hp
    cases ok
    case false => exact hc.profiles u hp
    case true  =>
      rw [users_written] at hp
      split at hp
      case isTrue hu => exact hu ▸ hc.known w (List.mem_of_getElem? hw)
      case isFalse   => exact hc.profiles u hp

theorem Consistent.preserved (hc : s.Consistent) (h : s.step e = some s') : s'.Consistent := by
  cases step_cases h
  case stay                           => exact hc
  case goTo v d _ hv _ _              => exact { hc with forms := forms_update hc.forms hv d }
  case createUser uid d form he hu hd => exact hc.created he hu hd
  case signIn d _ _                   => exact { hc with forms := forms_update hc.forms (by simp) d }
  case write i w ok hw                => exact hc.written hw ok
  case signOut d                      => exact { hc with forms := forms_update hc.forms (by simp) d }

-- An account without a profile, and without a write that could still create it.
structure Orphaned (s : Service) (a : Account) : Prop where
  account : a ∈ s.accounts
  missing : ¬s.HasProfile a.uid
  lost    : ∀ w ∈ s.writes, w.uid ≠ a.uid

theorem HasProfile.written (h : s.HasProfile uid) (i : Nat) (w : ProfileWrite) :
    (s.written i w true).HasProfile uid := by
  have ⟨username, email, h⟩ := h
  by_cases hu : uid = w.uid
  case pos => exact ⟨w.username, w.email, by rw [users_written, if_pos hu, hu]; rfl⟩
  case neg => exact ⟨username, email, by rw [users_written, if_neg hu, h]⟩

theorem hasProfile_written (s : Service) (i : Nat) (w : ProfileWrite) :
    (s.written i w true).HasProfile w.uid :=
  ⟨w.username, w.email, by rw [users_written, if_pos rfl]; rfl⟩

-- The email of such an account is in use, and a log-in does not create the profile.
theorem Orphaned.preserved (ho : s.Orphaned a) (h : s.step e = some s') : s'.Orphaned a := by
  cases step_cases h
  case stay    => exact ho
  case goTo    => exact { ho with }
  case signIn  => exact { ho with }
  case signOut => exact { ho with }
  case createUser uid d form he hu hd =>
    have hn : uid ≠ a.uid := fun h => hu (h ▸ List.mem_map_of_mem ho.account)
    exact {
      account := List.mem_append_left _ ho.account
      missing := ho.missing
      lost    := by simpa [created, or_imp, forall_and] using ⟨ho.lost, hn⟩
    }
  case write i w ok hw =>
    have hn := ho.lost w (List.mem_of_getElem? hw)
    exact {
      account := ho.account
      missing := by
        cases ok
        case false => exact ho.missing
        case true  =>
          intro ⟨username, email, hp⟩
          rw [users_written, if_neg hn.symm] at hp
          exact ho.missing ⟨username, email, hp⟩
      lost    := fun w hw => ho.lost w (List.mem_of_mem_eraseIdx hw)
    }

theorem Orphaned.not_repairable (ho : s.Orphaned a) (hc : s.Consistent) : ¬s.Repairable a.email := by
  intro ⟨es, s', r, b, hb, he, hp⟩
  have ho' := r.invariant (I := (Orphaned · a)) Orphaned.preserved ho
  have hc' := r.invariant (I := Consistent) Consistent.preserved hc
  have hab := List.inj_on_of_nodup_map hc'.emails hb ho'.account he
  exact ho'.missing (hab ▸ hp)

theorem registration_of_login (h : (s.devices d).view = .login) :
    ∃ s', s.step (.openRegistration d) = some s' ∧ (s'.devices d).view = .registration ∧
      s'.accounts = s.accounts ∧ s'.writes = s.writes :=
  ⟨s.goTo d .registration, by simp [step, h], by simp [goTo, setDevice], rfl, rfl⟩

-- Whatever a device shows, it can get to the registration screen without creating anything.
theorem exists_registration (s : Service) (d : Nat) :
    ∃ es s', Run (Fires step) s es s' ∧ (s'.devices d).view = .registration ∧
      s'.accounts = s.accounts ∧ s'.writes = s.writes := by
  cases hv : (s.devices d).view
  case login =>
    obtain ⟨s', h, hs⟩ := registration_of_login hv
    exact ⟨_, s', .single h, hs⟩
  case registration => exact ⟨[], s, .refl, hv, rfl, rfl⟩
  case creating form =>
    have h : s.step (.createUser d none) = some (s.goTo d .registration) := by simp [step, hv]
    exact ⟨_, _, .single h, by simp [goTo, setDevice], rfl, rfl⟩
  case registering form =>
    have h : s.step (.signIn d false) = some (s.goTo d .registration) := by
      simp [step, hv, View.signIn]
    exact ⟨_, _, .single h, by simp [goTo, setDevice], rfl, rfl⟩
  case loggingIn email password =>
    have h : s.step (.signIn d false) = some (s.goTo d .login) := by simp [step, hv, View.signIn]
    obtain ⟨s', h', hs⟩ := registration_of_login (s := s.goTo d .login) (d := d)
      (by simp [goTo, setDevice])
    exact ⟨_, s', .step h (.single h'), hs⟩
  case dashboard =>
    have h : s.step (.signOut d) = some (s.setDevice d ⟨.login, none⟩) := by simp [step, hv]
    obtain ⟨s', h', hs⟩ := registration_of_login (s := s.setDevice d ⟨.login, none⟩) (d := d)
      (by simp [setDevice])
    exact ⟨_, s', .step h (.single h'), hs⟩

theorem step_write (hw : s.writes[i]? = some w) (ok : Bool) :
    s.step (.write i ok) = some (s.written i w ok) := by
  rw [step, hw, Option.map_some]

-- Signs up with the email, from the registration screen.
theorem repairable_of_registration (he : email ≠ "") (hn : email ∉ s.accounts.map Account.email)
    (hd : (s.devices d).view = .registration) : s.Repairable email := by
  obtain ⟨uid, hu⟩ := (s.accounts.map Account.uid).toFinset.exists_notMem
  rw [List.mem_toFinset] at hu
  let form : RegistrationScreen.Form := ⟨email, "password", "password", "username"⟩
  let s₁ := s.goTo d (.creating form)
  have h₁ : s.step (.signUp d form) = some s₁ := by
    simp [step, hd, form, s₁, RegistrationScreen.Form.passwordConfirmed,
      RegistrationScreen.Form.notAllFieldsFilled, he]
  have h₂ : s₁.step (.createUser d (some uid)) = some (s₁.created d form uid) := by
    simp only [step, s₁, goTo, setDevice, Function.update_self]
    exact if_neg (not_or.mpr ⟨hn, hu⟩)
  have hw : (s₁.created d form uid).writes[s.writes.length]? = some ⟨uid, "username", email⟩ := by
    simp [created, s₁, form, goTo, setDevice]
  have ha : ⟨email, "password", uid⟩ ∈ (s₁.created d form uid).accounts :=
    List.mem_append_right _ (List.mem_singleton_self _)
  exact ⟨_, _, .step h₁ <| .step h₂ <| .single <| step_write hw true, _, ha, rfl,
    hasProfile_written _ _ ⟨uid, "username", email⟩⟩

theorem Repairable.of_run (r : Run (Fires step) s es s') (h : s'.Repairable email) :
    s.Repairable email :=
  have ⟨_, s'', r', ha⟩ := h
  ⟨_, s'', r.append r', ha⟩

theorem repairable_of_kept (hk : ∀ a, ¬s.Orphaned a) (he : email ≠ "") : s.Repairable email := by
  by_cases hm : email ∈ s.accounts.map Account.email
  case neg =>
    have ⟨_, _, r, hd, ha, _⟩ := exists_registration s 0
    exact .of_run r <| repairable_of_registration he (ha ▸ hm) hd
  case pos =>
    have ⟨a, ha, hae⟩ := List.mem_map.mp hm
    by_cases hp : s.HasProfile a.uid
    case pos => exact ⟨[], s, .refl, a, ha, hae, hp⟩
    case neg =>
      have ⟨w, hw, hwa⟩ : ∃ w ∈ s.writes, w.uid = a.uid := by
        by_contra hn
        exact hk a ⟨ha, hp, fun w hw hwa => hn ⟨w, hw, hwa⟩⟩
      have ⟨i, hi⟩ := List.mem_iff_getElem?.mp hw
      exact ⟨_, _, .single <| step_write hi true, a, ha, hae, hwa ▸ hasProfile_written s i w⟩

theorem repairable_iff (hc : s.Consistent) :
    (∀ email, email ≠ "" → s.Repairable email) ↔ ∀ a, ¬s.Orphaned a := by
  constructor
  · intro hr a ho
    exact ho.not_repairable hc <| hr _ (hc.filled a ho.account)
  · exact fun hk email he => repairable_of_kept hk he

theorem sound_iff (hc : s.Consistent) :
    s.Sound ↔ (∀ d, s.Shows (s.devices d)) ∧ ∀ a, ¬s.Orphaned a := by
  rw [←repairable_iff hc]
  exact ⟨fun h => ⟨h.shown, h.repairable⟩, fun h => ⟨h.left, h.right⟩⟩

theorem sound_start : start.Sound :=
  sound_iff consistent_start |>.mpr ⟨fun _ => by simp [Shows, start], fun _ ho => by cases ho.account⟩

end Service
