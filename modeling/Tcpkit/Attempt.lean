/-! Functions over a state that may fault or give up, and the rules for what they guarantee. -/

/-- No outcome at all is a fault; an outcome without a value has given up, and its state is
the one left behind. -/
def Attempt (σ α : Type) : Type := σ → Option (Option α × σ)

namespace Attempt

variable {σ α β : Type}

def pure (a : α) : Attempt σ α := fun s => some (some a, s)

def bind (m : Attempt σ α) (f : α → Attempt σ β) : Attempt σ β := fun s =>
  Option.bind (m s) fun r =>
    match r.1 with
    | some a => f a r.2
    | none => some (none, r.2)

instance : Monad (Attempt σ) where
  pure := pure
  bind := bind

def get : Attempt σ σ := fun s => some (some s, s)

def modify (f : σ → σ) : Attempt σ Unit := fun s => some (some (), f s)

def giveUp : Attempt σ α := fun s => some (none, s)

def fault : Attempt σ α := fun _ => none

/-- From `s` there is no fault, a value comes with `ok` and giving up with `bad`. -/
def Gives (m : Attempt σ α) (s : σ) (ok : α → σ → Prop) (bad : σ → Prop) : Prop :=
  ∃ r s', m s = some (r, s') ∧ match r with
    | some a => ok a s'
    | none => bad s'

variable {m : Attempt σ α} {f : α → Attempt σ β} {s : σ} {ok ok' : α → σ → Prop}
  {next : β → σ → Prop} {bad bad' : σ → Prop}

theorem Gives.value {a : α} {t : σ} (h : m s = some (some a, t)) (hok : ok a t) : m.Gives s ok bad :=
  ⟨some a, t, h, hok⟩

theorem Gives.refusal {t : σ} (h : m s = some (none, t)) (hbad : bad t) : m.Gives s ok bad :=
  ⟨none, t, h, hbad⟩

theorem gives_pure {a : α} (h : ok a s) : (Pure.pure a : Attempt σ α).Gives s ok bad :=
  Gives.value rfl h

theorem gives_get : (get : Attempt σ σ).Gives s (fun a t => a = s ∧ t = s) bad :=
  Gives.value rfl ⟨rfl, rfl⟩

theorem gives_modify {g : σ → σ} {ok : Unit → σ → Prop} (h : ok () (g s)) :
    (modify g).Gives s ok bad :=
  Gives.value rfl h

theorem gives_giveUp (h : bad s) : (giveUp : Attempt σ α).Gives s ok bad :=
  Gives.refusal rfl h

theorem Gives.bind (h : m.Gives s ok bad) (hf : ∀ a s', ok a s' → (f a).Gives s' next bad) :
    (m >>= f).Gives s next bad := by
  obtain ⟨r, s', hm, hr⟩ := h
  cases r with
  | none => exact ⟨none, s', by simp [Bind.bind, Attempt.bind, hm], hr⟩
  | some a =>
    obtain ⟨r', s'', hfa, hr'⟩ := hf a s' hr
    exact ⟨r', s'', by simp [Bind.bind, Attempt.bind, hm, hfa], hr'⟩

theorem Gives.mono (h : m.Gives s ok bad) (hok : ∀ a s', ok a s' → ok' a s')
    (hbad : ∀ s', bad s' → bad' s') : m.Gives s ok' bad' := by
  obtain ⟨r, s', hm, hr⟩ := h
  cases r with
  | none => exact ⟨none, s', hm, hbad s' hr⟩
  | some a => exact ⟨some a, s', hm, hok a s' hr⟩

end Attempt
