import Mathlib.Data.Finmap
import Mathlib.Data.Finset.Card
import Mathlib.Data.Finset.Preimage

/-! Finite maps with a constant value type. On top of Mathlib's `Finmap` this
adds first-writer-wins insertion, updating the value of a key that is present,
filtering by value, and reindexing along an injective renaming of the keys. -/

namespace Finmap

variable {α β γ δ : Type*} [DecidableEq α] [DecidableEq γ]

theorem keys_insert (a : α) (b : β) (m : Finmap fun _ : α => β) :
    (m.insert a b).keys = Insert.insert a m.keys := by
  ext x
  simp [mem_keys, mem_insert]

theorem mem_keys_iff_isSome {m : Finmap fun _ : α => β} {a : α} :
    a ∈ m.keys ↔ (m.lookup a).isSome := by
  rw [mem_keys, lookup_isSome]

omit [DecidableEq α] in
theorem card_values (m : Finmap fun _ : α => β) :
    (m.entries.map Sigma.snd).card = m.keys.card := by
  rw [Multiset.card_map, keys, Finset.card_mk, Multiset.keys, Multiset.card_map]

/-- Insertion that keeps the value already stored under the key. -/
def addNew (a : α) (b : β) (m : Finmap fun _ : α => β) : Finmap fun _ : α => β :=
  match m.lookup a with
  | some _ => m
  | none => m.insert a b

def adjust (a : α) (f : β → β) (m : Finmap fun _ : α => β) : Finmap fun _ : α => β :=
  match m.lookup a with
  | some b => m.insert a (f b)
  | none => m

def filterValues (p : β → Bool) (m : Finmap fun _ : α => β) : Finmap fun _ : α => β where
  entries := m.entries.filter (fun e => p e.2)
  nodupKeys := by
    have hn : m.entries.keys.Nodup := Multiset.nodup_keys.mpr m.nodupKeys
    exact Multiset.nodup_keys.mp
      (Multiset.nodup_of_le (Multiset.map_le_map (Multiset.filter_le _ _)) hn)

theorem lookup_addNew (a x : α) (b : β) (m : Finmap fun _ : α => β) :
    (m.addNew a b).lookup x = if x = a then some ((m.lookup a).getD b) else m.lookup x := by
  rw [addNew]
  cases h : m.lookup a with
  | some c =>
    by_cases hx : x = a
    · subst hx
      simp [h]
    · simp [hx]
  | none =>
    by_cases hx : x = a
    · subst hx
      simp
    · simp [hx]

theorem lookup_adjust (a x : α) (f : β → β) (m : Finmap fun _ : α => β) :
    (m.adjust a f).lookup x = if x = a then (m.lookup a).map f else m.lookup x := by
  rw [adjust]
  cases h : m.lookup a with
  | some c =>
    by_cases hx : x = a
    · subst hx
      simp
    · simp [hx]
  | none =>
    by_cases hx : x = a
    · subst hx
      simp [h]
    · simp [hx]

theorem lookup_filterValues (p : β → Bool) (x : α) (m : Finmap fun _ : α => β) :
    (m.filterValues p).lookup x = (m.lookup x).filter p := by
  ext b
  rw [lookup_eq_some_iff, Option.filter_eq_some_iff, lookup_eq_some_iff]
  exact Multiset.mem_filter

theorem keys_addNew (a : α) (b : β) (m : Finmap fun _ : α => β) :
    (m.addNew a b).keys = Insert.insert a m.keys := by
  rw [addNew]
  cases h : m.lookup a with
  | some c =>
    have ha : a ∈ m.keys := by simp [mem_keys_iff_isSome, h]
    exact (Finset.insert_eq_of_mem ha).symm
  | none => exact keys_insert a b m

theorem keys_adjust (a : α) (f : β → β) (m : Finmap fun _ : α => β) :
    (m.adjust a f).keys = m.keys := by
  ext x
  rw [mem_keys_iff_isSome, mem_keys_iff_isSome, lookup_adjust]
  by_cases hx : x = a
  · subst hx
    simp
  · simp [hx]

theorem keys_filterValues_subset (p : β → Bool) (m : Finmap fun _ : α => β) :
    (m.filterValues p).keys ⊆ m.keys := by
  intro x hx
  rw [mem_keys_iff_isSome, lookup_filterValues] at hx
  rw [mem_keys_iff_isSome]
  exact Option.isSome_of_isSome_filter p _ hx
/-- The map read through an injective renaming of its keys and a projection of
its values. -/
noncomputable def comap (f : γ → α) (hf : Function.Injective f) (g : β → δ)
    (m : Finmap fun _ : α => β) : Finmap fun _ : γ => δ :=
  keysLookupEquiv.symm ⟨(m.keys.preimage f hf.injOn, fun c => (m.lookup (f c)).map g), fun c => by
    rw [Finset.mem_preimage, mem_keys_iff_isSome, Option.isSome_map]⟩

section

variable {f : γ → α} (hf : Function.Injective f) (g : β → δ) (m : Finmap fun _ : α => β)

@[simp]
theorem lookup_comap (c : γ) : (m.comap f hf g).lookup c = (m.lookup (f c)).map g := by
  simp [comap]

theorem keys_comap : (m.comap f hf g).keys = m.keys.preimage f hf.injOn := by
  simp [comap]

theorem comap_addNew (c : γ) (b : β) :
    (m.addNew (f c) b).comap f hf g = (m.comap f hf g).addNew c (g b) := by
  apply ext_lookup
  intro x
  rw [lookup_comap, lookup_addNew, lookup_addNew, lookup_comap, lookup_comap]
  by_cases hx : x = c
  · subst hx
    cases h : m.lookup (f x) <;> simp
  · simp [hx, hf.eq_iff]

theorem comap_adjust (c : γ) {u : β → β} {v : δ → δ} (huv : ∀ b, g (u b) = v (g b)) :
    (m.adjust (f c) u).comap f hf g = (m.comap f hf g).adjust c v := by
  apply ext_lookup
  intro x
  rw [lookup_comap, lookup_adjust, lookup_adjust, lookup_comap, lookup_comap]
  by_cases hx : x = c
  · subst hx
    cases h : m.lookup (f x) <;> simp [huv]
  · simp [hx, hf.eq_iff]

theorem comap_erase (c : γ) : (m.erase (f c)).comap f hf g = (m.comap f hf g).erase c := by
  apply ext_lookup
  intro x
  by_cases hx : x = c
  · subst hx
    simp
  · have hne : f x ≠ f c := fun he => hx (hf he)
    rw [lookup_comap, lookup_erase_ne hne, lookup_erase_ne hx, lookup_comap]

theorem comap_filterValues {p : β → Bool} {q : δ → Bool} (hpq : ∀ b, p b = q (g b)) :
    (m.filterValues p).comap f hf g = (m.comap f hf g).filterValues q := by
  apply ext_lookup
  intro x
  rw [lookup_comap, lookup_filterValues, lookup_filterValues, lookup_comap]
  cases h : m.lookup (f x) with
  | none => rfl
  | some b =>
    simp only [Option.filter_some, Option.map_some, hpq]
    split <;> rfl

theorem comap_empty : (∅ : Finmap fun _ : α => β).comap f hf g = ∅ := by
  apply ext_lookup
  intro x
  simp

theorem card_comap (hr : ∀ a ∈ m.keys, a ∈ Set.range f) :
    (m.comap f hf g).keys.card = m.keys.card := by
  classical
  rw [keys_comap, Finset.card_preimage, Finset.filter_true_of_mem hr]

end

end Finmap
