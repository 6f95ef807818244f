import Tcpkit.NodeTableRuns
import Tcpkit.PlacedItems
import Tcpkit.ServedReport

/-! The reports of the statistics server as they are built in memory, when any allocation may be
refused: what is left out of them, what is lost, and what the clients read. -/

namespace Tcpkit

open MachineInt Memory JsonMemory PlacedItem

mutual

/-- The item with some members and elements missing, at any depth. -/
inductive ItemPartOf : JsonItem Nat → JsonItem Nat → Prop where
  | number (value : Nat) : ItemPartOf (.number value) (.number value)
  | array {xs ys : List (JsonItem Nat)} : ElementsPartOf xs ys → ItemPartOf (.array xs) (.array ys)
  | object {ms ns : List (CString × JsonItem Nat)} :
    MembersPartOf ms ns → ItemPartOf (.object ms) (.object ns)

inductive ElementsPartOf : List (JsonItem Nat) → List (JsonItem Nat) → Prop where
  | nil : ElementsPartOf [] []
  | skip {xs ys : List (JsonItem Nat)} {y : JsonItem Nat} : ElementsPartOf xs ys → ElementsPartOf xs (y :: ys)
  | keep {xs ys : List (JsonItem Nat)} {x y : JsonItem Nat} :
    ItemPartOf x y → ElementsPartOf xs ys → ElementsPartOf (x :: xs) (y :: ys)

inductive MembersPartOf : List (CString × JsonItem Nat) → List (CString × JsonItem Nat) → Prop where
  | nil : MembersPartOf [] []
  | skip {ms ns : List (CString × JsonItem Nat)} {n : CString × JsonItem Nat} :
    MembersPartOf ms ns → MembersPartOf ms (n :: ns)
  | keep {ms ns : List (CString × JsonItem Nat)} {key : CString} {x y : JsonItem Nat} :
    ItemPartOf x y → MembersPartOf ms ns → MembersPartOf ((key, x) :: ms) ((key, y) :: ns)

end

section Parts

mutual

theorem ItemPartOf.readable : ∀ {x y : JsonItem Nat} {n : Nat}, ItemPartOf x y → y.Readable n → x.Readable n
  | _, _, _, .number _, h => h
  | _, _, _ + 1, .array hp, h => ElementsPartOf.readable hp h
  | _, _, _ + 1, .object hp, h => MembersPartOf.readable hp h

theorem ElementsPartOf.readable : ∀ {xs ys : List (JsonItem Nat)} {n : Nat},
    ElementsPartOf xs ys → ReadableElements n ys → ReadableElements n xs
  | _, _, _, .nil, h => h
  | _, _, _, .skip hp, h => ElementsPartOf.readable hp h.2
  | _, _, _, .keep hx hp, h => ⟨ItemPartOf.readable hx h.1, ElementsPartOf.readable hp h.2⟩

theorem MembersPartOf.readable : ∀ {ms ns : List (CString × JsonItem Nat)} {n : Nat},
    MembersPartOf ms ns → ReadableMembers n ns → ReadableMembers n ms
  | _, _, _, .nil, h => h
  | _, _, _, .skip hp, h => MembersPartOf.readable hp h.2
  | _, _, _, .keep hx hp, h => ⟨ItemPartOf.readable hx h.1, MembersPartOf.readable hp h.2⟩

end

variable {ms ns : List (CString × JsonItem Nat)} {x y : JsonItem Nat}

theorem MembersPartOf.nil_left : ∀ ns : List (CString × JsonItem Nat), MembersPartOf [] ns
  | [] => .nil
  | _ :: ns => .skip (nil_left ns)

theorem MembersPartOf.append_right : ∀ {ms ns : List (CString × JsonItem Nat)}, MembersPartOf ms ns →
    ∀ behind, MembersPartOf ms (ns ++ behind)
  | _, _, .nil, behind => nil_left behind
  | _, _, .skip h, behind => .skip (append_right h behind)
  | _, _, .keep hx h, behind => .keep hx (append_right h behind)

theorem MembersPartOf.append_keep (hx : ItemPartOf x y) (key : CString) :
    ∀ {ms ns : List (CString × JsonItem Nat)}, MembersPartOf ms ns →
      MembersPartOf (ms ++ [(key, x)]) (ns ++ [(key, y)])
  | _, _, .nil => .keep hx .nil
  | _, _, .skip h => .skip (append_keep hx key h)
  | _, _, .keep hx' h => .keep hx' (append_keep hx key h)

theorem MembersPartOf.elements : ∀ {ms ns : List (CString × JsonItem Nat)}, MembersPartOf ms ns →
    ElementsPartOf (ms.map Prod.snd) (ns.map Prod.snd)
  | _, _, .nil => .nil
  | _, _, .skip h => .skip (elements h)
  | _, _, .keep hx h => .keep hx (elements h)

end Parts

section Building

variable {ν : Type} {malloc : Allocator ν} {a c : Option ν} {kind : ItemKind}
  {done : List (CString × JsonItem Nat)} {R S : Cells ν (JsonBlock ν)} {x : JsonItem Nat} {key : CString}

/-- Whole items that were never linked to anything. -/
def lostCells (lost : List (PlacedItem ν)) : Cells ν (JsonBlock ν) :=
  (lost.map fun t => t.itemCells none none none).sum

theorem lostCells_append (xs ys : List (PlacedItem ν)) :
    lostCells (xs ++ ys) = lostCells xs + lostCells ys := by
  rw [lostCells, List.map_append, List.sum_append]
  rfl

theorem lostCells_toList (o : Option (PlacedItem ν)) : lostCells o.toList = rootCells o := by
  cases o with
  | none => rfl
  | some t => exact Multiset.add_zero _

/-- An array or object at `a` that is being filled: of what was to be in it by now it has a part, and
all of it with nothing lost unless the allocator refuses something. -/
def Filling (malloc : Allocator ν) (kind : ItemKind) (a : Option ν) (done : List (CString × JsonItem Nat))
    (R : Cells ν (JsonBlock ν)) : Prop :=
  ∃ o lost, a = Option.map addr o ∧ R = rootCells o + lostCells lost ∧
    (∀ t, o = some t → t.kind = kind ∧ MembersPartOf (jsonMembers t.children) done) ∧
    (Refuses malloc ∨ lost = [] ∧ ∃ t, o = some t ∧ jsonMembers t.children = done)

def Made (malloc : Allocator ν) (a : Option ν) (x : JsonItem Nat) (R : Cells ν (JsonBlock ν)) : Prop :=
  ∃ o lost, a = Option.map addr o ∧ R = rootCells o + lostCells lost ∧
    (∀ t, o = some t → ItemPartOf t.json x) ∧
    (Refuses malloc ∨ lost = [] ∧ ∃ t, o = some t ∧ t.json = x)

theorem json_of_kind {t : PlacedItem ν} (h : t.kind = .object) :
    t.json = .object (jsonMembers t.children) := by
  obtain ⟨n, k, cs⟩ := t
  cases h
  rfl

theorem json_of_kind_array {t : PlacedItem ν} (h : t.kind = .array) :
    t.json = .array ((jsonMembers t.children).map Prod.snd) := by
  obtain ⟨n, k, cs⟩ := t
  cases h
  rfl

theorem Filling.made_object (h : Filling malloc .object a done R) : Made malloc a (.object done) R := by
  obtain ⟨o, lost, ha, hR, hpart, hall⟩ := h
  refine ⟨o, lost, ha, hR, fun t ht => ?_, hall.imp_right fun ⟨hlost, t, ht, hdone⟩ => ⟨hlost, t, ht, ?_⟩⟩
  · rw [json_of_kind (hpart t ht).1]
    exact .object (hpart t ht).2
  · rw [json_of_kind (hpart t ht).1, hdone]

theorem Filling.made_array (h : Filling malloc .array a done R) :
    Made malloc a (.array (done.map Prod.snd)) R := by
  obtain ⟨o, lost, ha, hR, hpart, hall⟩ := h
  refine ⟨o, lost, ha, hR, fun t ht => ?_, hall.imp_right fun ⟨hlost, t, ht, hdone⟩ => ⟨hlost, t, ht, ?_⟩⟩
  · rw [json_of_kind_array (hpart t ht).1]
    exact .array (hpart t ht).2.elements
  · rw [json_of_kind_array (hpart t ht).1, hdone]

/-- What could not be linked is missing, and lost unless it is deleted. -/
theorem Filling.skip (hrefuses : Refuses malloc) {o : Option (PlacedItem ν)}
    (hpart : ∀ t, o = some t → t.kind = kind ∧ MembersPartOf (jsonMembers t.children) done)
    (n : CString × JsonItem Nat) (lost : List (PlacedItem ν)) :
    Filling malloc kind (o.map addr) (done ++ [n]) (rootCells o + lostCells lost) :=
  ⟨o, lost, rfl, rfl, fun t ht => ⟨(hpart t ht).1, (hpart t ht).2.append_right [n]⟩, .inl hrefuses⟩

theorem Filling.keep {t u : PlacedItem ν} {lost : List (PlacedItem ν)} {k : Option (ν × CString)}
    (hkind : t.kind = kind) (hpart : MembersPartOf (jsonMembers t.children) done) (hu : ItemPartOf u.json x)
    (hall : Refuses malloc ∨ lost = [] ∧ jsonMembers t.children = done ∧ u.json = x) :
    Filling malloc kind (some t.addr) (done ++ [(keyText k, x)])
      ((t.push (k, u)).itemCells none none none + lostCells lost) := by
  have hmembers : jsonMembers (t.push (k, u)).children = jsonMembers t.children ++ [(keyText k, u.json)] :=
    jsonMembers_append
  refine ⟨some (t.push (k, u)), lost, rfl, rfl, ?_, hall.imp_right fun ⟨hlost, hdone, hx⟩ =>
    ⟨hlost, _, rfl, by rw [hmembers, hdone, hx]⟩⟩
  rintro _ ⟨rfl⟩
  exact ⟨hkind, hmembers ▸ hpart.append_keep hu (keyText k)⟩

/-- A routine that links an item, or leaves it alone where something is refused or missing. -/
theorem attach_filling {r : Routine ν (JsonBlock ν) Bool} {o u : Option (PlacedItem ν)}
    {lost lost' : List (PlacedItem ν)}
    (hlinks : ∀ t w, o = some t → u = some w → Ensures (rootCells o + rootCells u) r fun _ T =>
      (∃ k, keyText k = key ∧ T = (t.push (k, w)).itemCells none none none) ∨
        T = rootCells o + rootCells u ∧ Refuses malloc)
    (hnull : o = none ∨ u = none → r = pure false)
    (hpart : ∀ t, o = some t → t.kind = kind ∧ MembersPartOf (jsonMembers t.children) done)
    (hall : Refuses malloc ∨ lost = [] ∧ ∃ t, o = some t ∧ jsonMembers t.children = done)
    (hu : ∀ t, u = some t → ItemPartOf t.json x)
    (hall' : Refuses malloc ∨ lost' = [] ∧ ∃ t, u = some t ∧ t.json = x) :
    Ensures (rootCells o + lostCells lost + (rootCells u + lostCells lost')) r
      (fun _ T => Filling malloc kind (o.map addr) (done ++ [(key, x)]) T) := by
  have hunlinked (hrefuses : Refuses malloc) : Filling malloc kind (o.map addr) (done ++ [(key, x)])
      (rootCells o + lostCells lost + (rootCells u + lostCells lost')) := by
    have hskip := Filling.skip hrefuses hpart (key, x) (lost ++ (u.toList ++ lost'))
    rw [lostCells_append, lostCells_append, lostCells_toList, ← add_assoc] at hskip
    exact hskip
  by_cases hboth : o = none ∨ u = none
  · rw [hnull hboth]
    refine Ensures.pure (hunlinked ?_)
    rcases hboth with rfl | rfl
    · exact hall.resolve_right (by rintro ⟨-, t, ⟨⟩, -⟩)
    · exact hall'.resolve_right (by rintro ⟨-, t, ⟨⟩, -⟩)
  rw [not_or, ← ne_eq, ← ne_eq, Option.ne_none_iff_exists', Option.ne_none_iff_exists'] at hboth
  obtain ⟨⟨t, rfl⟩, w, rfl⟩ := hboth
  have hcells : rootCells (some t) + lostCells lost + (rootCells (some w) + lostCells lost') =
      rootCells (some t) + rootCells (some w) + (lostCells lost + lostCells lost') := by abel
  rw [hcells] at hunlinked ⊢
  refine ((hlinks t w rfl rfl).frame _).mono ?_
  rintro _ _ ⟨T, rfl, ⟨k, rfl, rfl⟩ | ⟨rfl, hrefuses⟩⟩
  · rw [← lostCells_append]
    refine Filling.keep (hpart t rfl).1 (hpart t rfl).2 (hu w rfl) ?_
    rcases hall with hall | ⟨rfl, t', ht', hdone⟩
    · exact .inl hall
    rcases hall' with hall' | ⟨rfl, w', hw', hx⟩
    · exact .inl hall'
    cases ht'
    cases hw'
    exact .inr ⟨rfl, hdone, hx⟩
  · exact hunlinked hrefuses

variable [DecidableEq ν]

theorem addItemToObject_filling (h : Filling malloc .object a done R) (hc : Made malloc c x S)
    (key : CString) :
    Ensures (R + S) (addItemToObject malloc a key c)
      (fun _ T => Filling malloc .object a (done ++ [(key, x)]) T) := by
  obtain ⟨o, lost, rfl, rfl, hpart, hall⟩ := h
  obtain ⟨u, lost', rfl, rfl, hu, hall'⟩ := hc
  refine attach_filling ?_ ?_ hpart hall hu hall'
  · rintro t w rfl rfl
    refine (addItemToObject_spec malloc t w key none none none).mono ?_
    rintro _ _ (⟨-, k, rfl⟩ | ⟨-, rfl, hrefuses⟩)
    · exact .inl ⟨some (k, key), rfl, rfl⟩
    · exact .inr ⟨rfl, hrefuses⟩
  · rintro (rfl | rfl)
    · rfl
    · cases o <;> rfl

theorem addItemToArray_filling (h : Filling malloc .array a done R) (hc : Made malloc c x S) :
    Ensures (R + S) (addItemToArray a c) (fun _ T =>
      Filling malloc .array a (done ++ [(emptyText, x)]) T) := by
  obtain ⟨o, lost, rfl, rfl, hpart, hall⟩ := h
  obtain ⟨u, lost', rfl, rfl, hu, hall'⟩ := hc
  refine attach_filling ?_ ?_ hpart hall hu hall'
  · rintro t w rfl rfl
    have hkey : rootCells (some w) = keyCells none + w.itemCells none none none := (zero_add _).symm
    rw [hkey]
    refine (addItemToArray_spec t w none none none none).mono ?_
    rintro _ _ ⟨-, rfl⟩
    exact .inl ⟨none, rfl, rfl⟩
  · rintro (rfl | rfl)
    · rfl
    · cases o <;> rfl

theorem createItem_filling (malloc : Allocator ν) (kind : ItemKind) (fields : CJson ν → CJson ν)
    (hfields : ∀ n : ν,
      fields ⟨none, none, none, 0, none, 0, 0, none⟩ = (node n kind []).block none none none) :
    Ensures 0 (createItem malloc fields) (fun a R => Filling malloc kind a [] R) := by
  refine (createItem_spec malloc kind fields hfields).mono ?_
  rintro _ _ (⟨rfl, rfl, hrefuses⟩ | ⟨n, rfl, rfl⟩)
  · refine ⟨none, [], rfl, rfl, ?_, .inl hrefuses⟩
    rintro _ ⟨⟩
  · refine ⟨some (node n kind []), [], rfl, rfl, ?_, .inr ⟨rfl, _, rfl, rfl⟩⟩
    rintro _ ⟨rfl⟩
    exact ⟨rfl, .nil⟩

theorem cJsonCreateObject_filling (malloc : Allocator ν) :
    Ensures 0 (cJsonCreateObject malloc) (fun a R => Filling malloc .object a [] R) :=
  createItem_filling malloc .object _ fun _ => rfl

theorem deleted_filling (hrefuses : Refuses malloc) {o : Option (PlacedItem ν)}
    (hpart : ∀ t, o = some t → t.kind = kind ∧ MembersPartOf (jsonMembers t.children) done)
    (lost : List (PlacedItem ν)) (u : Option (PlacedItem ν)) (m : CString × JsonItem Nat) :
    Ensures (rootCells o + lostCells lost + rootCells u)
      (do cJsonDelete (u.map addr); return (none : Option ν))
      (fun _ T => Filling malloc kind (o.map addr) (done ++ [m]) T) := by
  refine (cJsonDelete_spec u).call (F := rootCells o + lostCells lost) (add_comm _ _) ?_
  rintro _ _ rfl
  rw [zero_add]
  exact Ensures.pure (Filling.skip hrefuses hpart m lost)

theorem cJsonAddNumberToObject_filling (h : Filling malloc .object a done R) (name : CString) (value : Nat) :
    Ensures R (cJsonAddNumberToObject malloc a name value)
      (fun _ T => Filling malloc .object a (done ++ [(name, .number value)]) T) := by
  obtain ⟨o, lost, rfl, rfl, hpart, hall⟩ := h
  have hdeleted (hrefuses : Refuses malloc) (u : Option (PlacedItem ν)) :=
    deleted_filling hrefuses hpart lost u (name, .number value)
  refine (createItem_spec malloc (.number value) _ fun _ => rfl).bind ?_
  rintro _ _ (⟨rfl, rfl, hrefuses⟩ | ⟨n, rfl, rfl⟩)
  · have hnone : addItemToObject malloc (o.map addr) name none =
        (pure false : Routine ν (JsonBlock ν) Bool) := by
      cases o <;> rfl
    rw [hnone]
    refine (Ensures.pure (Q := fun ok R => ok = false ∧ R = _) ⟨rfl, rfl⟩).bind ?_
    rintro _ _ ⟨rfl, rfl⟩
    have hcells : rootCells o + lostCells lost + rootCells none = rootCells o + lostCells lost := add_zero _
    rw [← hcells]
    exact hdeleted hrefuses none
  cases o with
  | none =>
    refine (Ensures.pure (Q := fun ok R => ok = false ∧ R = _) ⟨rfl, rfl⟩).bind ?_
    rintro _ _ ⟨rfl, rfl⟩
    rw [add_comm]
    refine hdeleted (hall.resolve_right ?_) (some (node n (.number value) []))
    rintro ⟨-, t, ht, -⟩
    cases ht
  | some t =>
    refine (addItemToObject_spec malloc t (node n (.number value) []) name none none none).call
      (F := lostCells lost) (by rw [rootCells]; abel) ?_
    rintro ok _ (⟨rfl, k, rfl⟩ | ⟨rfl, rfl, hrefuses⟩)
    · refine Ensures.pure
        (Filling.keep (k := some (k, name)) (hpart t rfl).1 (hpart t rfl).2 (.number value) ?_)
      refine hall.imp_right ?_
      rintro ⟨rfl, t', ht', hdone⟩
      cases ht'
      exact ⟨rfl, hdone, rfl⟩
    · have hcells : t.itemCells none none none + (node n (.number value) []).itemCells none none none +
          lostCells lost = rootCells (some t) + lostCells lost +
            rootCells (some (node n (.number value) [])) := by
        rw [rootCells, rootCells]
        abel
      rw [hcells]
      exact hdeleted hrefuses (some (node n (.number value) []))

/-- The members of the latency array, which have no keys. -/
def latencyMembers (stats : QueryStats) (is : List (Fin 18)) : List (CString × JsonItem Nat) :=
  (is.filter fun i => stats.buckets i ≠ 0).map fun i =>
    (emptyText, .object [(bucketName i, .number (toDouble (stats.buckets i)))])

theorem latencyMembers_cons_of_ne {stats : QueryStats} {i : Fin 18} (hi : stats.buckets i ≠ 0)
    (is : List (Fin 18)) : latencyMembers stats (i :: is) =
      (emptyText, .object [(bucketName i, .number (toDouble (stats.buckets i)))]) ::
        latencyMembers stats is := by
  rw [latencyMembers, List.filter_cons_of_pos (by simpa using hi)]
  rfl

theorem latencyMembers_cons_of_eq {stats : QueryStats} {i : Fin 18} (hi : ¬stats.buckets i ≠ 0)
    (is : List (Fin 18)) : latencyMembers stats (i :: is) = latencyMembers stats is := by
  rw [latencyMembers, List.filter_cons_of_neg (by simpa using hi)]
  rfl

theorem latencyLoop_filling (stats : QueryStats) (is : List (Fin 18)) (h : Filling malloc .array a done R) :
    Ensures R (JsonMemory.latencyLoop malloc stats a is)
      (fun _ T => Filling malloc .array a (done ++ latencyMembers stats is) T) := by
  induction is generalizing done R with
  | nil => exact Ensures.pure ((List.append_nil done).symm ▸ h)
  | cons i is ih =>
    rw [JsonMemory.latencyLoop]
    by_cases hi : stats.buckets i ≠ 0
    · rw [if_pos hi, latencyMembers_cons_of_ne hi, List.append_cons]
      refine (cJsonCreateObject_filling malloc).call (F := R) (zero_add R).symm fun b S hb => ?_
      refine (cJsonAddNumberToObject_filling hb _ _).discard.call rfl fun _ S' hb' => ?_
      obtain ⟨-, hb'⟩ := hb'
      rw [add_comm]
      refine (addItemToArray_filling h hb'.made_object).discard.bind fun _ T hT => ?_
      obtain ⟨-, hT⟩ := hT
      exact ih hT
    · rw [if_neg hi, latencyMembers_cons_of_eq hi]
      exact ih h

theorem itemElements_append (xs ys : List Json) :
    itemElements (xs ++ ys) = itemElements xs ++ itemElements ys := by
  induction xs with
  | nil => rfl
  | cons x xs ih => rw [List.cons_append, itemElements, itemElements, ih, List.cons_append]

theorem itemElements_latencyLoop (stats : QueryStats) (is : List (Fin 18)) (items : List Json) :
    itemElements (latencyLoop stats is items) =
      itemElements items ++ (latencyMembers stats is).map Prod.snd := by
  induction is generalizing items with
  | nil => exact (List.append_nil _).symm
  | cons i is ih =>
    rw [latencyLoop]
    by_cases hi : stats.buckets i ≠ 0
    · rw [if_pos hi, ih, itemElements_append, latencyMembers_cons_of_ne hi, List.map_cons, List.append_assoc]
      rfl
    · rw [if_neg hi, ih, latencyMembers_cons_of_eq hi]

theorem createStatsObject_made (malloc : Allocator ν) (stats : QueryStats) :
    Ensures 0 (JsonMemory.createStatsObject malloc stats)
      (fun a R => Made malloc a (createStatsObject stats).item R) := by
  refine (cJsonCreateObject_filling malloc).bind fun a R h => ?_
  refine (cJsonAddNumberToObject_filling h _ _).discard.bind fun _ R h => ?_
  obtain ⟨-, h⟩ := h
  refine (cJsonAddNumberToObject_filling h _ _).discard.bind fun _ R h => ?_
  obtain ⟨-, h⟩ := h
  refine (cJsonAddNumberToObject_filling h _ _).discard.bind fun _ R h => ?_
  obtain ⟨-, h⟩ := h
  refine (cJsonAddNumberToObject_filling h _ _).discard.bind fun _ R h => ?_
  obtain ⟨-, h⟩ := h
  refine (createItem_filling malloc .array _ fun _ => rfl).call (F := R) (zero_add R).symm fun l S hl => ?_
  refine (latencyLoop_filling stats (List.finRange 18) hl).call rfl fun _ S hl => ?_
  rw [List.nil_append] at hl
  rw [add_comm]
  refine (addItemToObject_filling h hl.made_array _).discard.bind fun _ T hT => ?_
  obtain ⟨-, hT⟩ := hT
  refine Ensures.pure ?_
  have hitem : (createStatsObject stats).item = .object ([] ++
      [(CString.literal "requests", .number (toDouble stats.requests))] ++
      [(CString.literal "request_bytes", .number (toDouble stats.requestBytes))] ++
      [(CString.literal "responses", .number (toDouble stats.responses))] ++
      [(CString.literal "response_bytes", .number (toDouble stats.responseBytes))] ++
      [(CString.literal "latency", .array ((latencyMembers stats (List.finRange 18)).map Prod.snd))]) := by
    simp only [createStatsObject, Json.item, itemMembers, itemElements_latencyLoop, itemElements,
      List.nil_append, List.cons_append]
  rw [hitem]
  exact hT.made_object

theorem membersLoop_filling {values : List QueryStats} {n i : Nat} (hn : i + n ≤ values.length)
    (h : Filling malloc .object a done R) :
    Ensures R (JsonMemory.membersLoop malloc a values n i) (fun _ T => Filling malloc .object a
      (done ++ ((values.drop i).take n).map fun s =>
        (memberName s.endpoint, (createStatsObject s).item)) T) := by
  induction n generalizing i done R with
  | zero => exact Ensures.pure (by rw [List.take_zero, List.map_nil, List.append_nil]; exact h)
  | succ n ih =>
    have hi : i < values.length := by omega
    rw [JsonMemory.membersLoop, List.getElem?_eq_getElem hi, List.drop_eq_getElem_cons hi,
      List.take_succ_cons,
      List.map_cons, List.append_cons]
    refine (createStatsObject_made malloc values[i]).call (F := R) (zero_add R).symm fun c S hc => ?_
    rw [add_comm]
    refine (addItemToObject_filling h hc _).discard.bind fun _ T hT => ?_
    obtain ⟨-, hT⟩ := hT
    exact ih (by omega) hT

end Building

section Serving

variable {ν : Type}

/-- The text of the tree, or none where there is no tree or its text is refused or too long. -/
def TextOf (hooks : Hooks) (o : Option (PlacedItem ν)) (text : Option CString) : Prop :=
  text = none ∧ (o = none ∨ (∃ k, hooks k = none) ∨
      ∃ t, o = some t ∧ intMax < (t.json.print true).strlen + 2) ∨
    ∃ t, o = some t ∧ text = some (t.json.print true)

variable {hooks : Hooks} {o : Option (PlacedItem ν)} {text : Option CString}

theorem TextOf.part {x : JsonItem Nat} (h : TextOf hooks o text)
    (htree : ∀ t, o = some t → ItemPartOf t.json x) (value : CString) (hvalue : text = some value) :
    ∃ part, ItemPartOf part x ∧ value = part.print true := by
  rcases h with ⟨hnone, -⟩ | ⟨t, ht, hprinted⟩
  · rw [hnone] at hvalue
    cases hvalue
  · exact ⟨t.json, htree t ht, Option.some.inj (hvalue.symm.trans hprinted)⟩

theorem TextOf.whole {t : PlacedItem ν} (h : TextOf hooks (some t) text) :
    text = some (t.json.print true) ∨
      text = none ∧ ((∃ k, hooks k = none) ∨ intMax < (t.json.print true).strlen + 2) := by
  rcases h with ⟨hnone, hmissing | hrefused | ⟨t', ht', hlong⟩⟩ | ⟨t', ht', hprinted⟩
  · cases hmissing
  · exact .inr ⟨hnone, .inl hrefused⟩
  · cases ht'
    exact .inr ⟨hnone, .inr hlong⟩
  · cases ht'
    exact .inl hprinted

variable [DecidableEq ν] {malloc : Allocator ν}

theorem cJsonPrint_spec (hooks : Hooks) (o : Option (PlacedItem ν)) (hfin : ∀ t, o = some t → t.json.Finite) :
    Ensures (rootCells o) (JsonMemory.cJsonPrint hooks (o.map addr))
      (fun text R => R = rootCells o ∧ TextOf hooks o text) := by
  cases o with
  | none => exact Ensures.pure ⟨rfl, .inl ⟨rfl, .inl rfl⟩⟩
  | some t =>
    obtain ⟨r, hprint, hr⟩ := print_renders hooks (hfin t rfl) true
    refine Ensures.size.bind ?_
    rintro fuel _ ⟨hfuel, rfl⟩
    refine loadItem_bind (t.block none none none) t.cellsBelow rfl ?_
    have hbelow := readItems_spec fuel t.children (last t.children) (by
      rw [← cellsBelow_eq]
      rw [rootCells, itemCells, Multiset.card_add] at hfuel
      omega)
    rw [← cellsBelow_eq] at hbelow
    refine (itemValue_spec t none none none hbelow).call (F := cell t.addr (.item (t.block none none none)))
      (add_comm _ _) ?_
    rintro _ _ ⟨rfl, rfl⟩
    rw [Tcpkit.cJsonPrint, hprint]
    refine Ensures.pure ⟨add_comm _ _, ?_⟩
    rcases hr.printed with ⟨hblock, -⟩ | ⟨hblock, -⟩
    · rw [hblock, Option.map_some, cString_block]
      exact .inr ⟨t, rfl, rfl⟩
    · rw [hblock]
      refine .inl ⟨rfl, .inr ?_⟩
      exact (hr.refused.mp hblock).imp (fun hk => hk.elim fun k h => ⟨k, h.2⟩) fun h => ⟨t, rfl, h⟩

/-- The block of the values is held along with the first of them. -/
theorem statsValues_spec (malloc : Allocator ν) (allocOk : Int → Bool) (synTab : Hashtable QueryStats) :
    Ensures 0 (statsValues malloc allocOk synTab) (fun r R =>
      (r.1 = none ∧ R = 0 ∨ ∃ b values, r.1 = some b ∧ R = cell b (.values values)) ∧
      ∃ n, r.2.1 = (synTab.entries.take n).map Entry.value ∧ r.2.2.toNat = r.2.1.length ∧
        ((∀ cnt, allocOk cnt = true) → ¬Refuses malloc → n = 2 ^ 30)) := by
  obtain ⟨n, hvalues, hall⟩ := hashtableValues_prefix allocOk synTab
  rw [statsValues, hvalues]
  simp only
  by_cases hnil : (synTab.entries.take n).map Entry.value = []
  · rw [if_pos hnil]
    exact Ensures.pure ⟨.inl ⟨rfl, rfl⟩, n, hnil.symm, rfl, fun h _ => hall h⟩
  · rw [if_neg hnil]
    refine (Ensures.alloc malloc _).bind ?_
    rintro _ _ (⟨rfl, rfl, hrefuses⟩ | ⟨b, rfl, rfl⟩)
    · exact Ensures.pure ⟨.inl ⟨rfl, rfl⟩, 0, rfl, rfl, fun _ h => absurd hrefuses h⟩
    · refine Ensures.pure ⟨.inr ⟨b, _, rfl, add_zero _⟩, n, rfl, ?_, fun h _ => hall h⟩
      rw [Int.toNat_natCast, List.length_map]

theorem releaseValues_spec {block : Option ν} {S : Cells ν (JsonBlock ν)}
    (h : block = none ∧ S = 0 ∨ ∃ b values, block = some b ∧ S = cell b (.values values)) :
    Ensures S (release block) (fun _ R => R = 0) := by
  rcases h with ⟨rfl, rfl⟩ | ⟨b, values, rfl, rfl⟩
  · exact Ensures.pure rfl
  · exact Ensures.free (add_zero _).symm

theorem report_take (s : Sniffer) (n : Nat) : s.report = .object
    ((s.synTab.entries.take n).map (fun e => (memberName e.value.endpoint,
      (createStatsObject e.value).item)) ++
      (s.synTab.entries.drop n).map fun e => (memberName e.value.endpoint,
        (createStatsObject e.value).item)) := by
  rw [← List.map_append, List.take_append_drop]
  simp only [Sniffer.report, memberName_eq]

/-- What is left of a report after it was printed are items that were never linked, none of them
where nothing was refused; its text is that of a part of the report, or there is none. -/
theorem serverStatsToJson_spec (malloc : Allocator ν) (allocOk : Int → Bool) (hooks : Hooks) {s : Sniffer}
    (hread : s.report.Readable nestingLimit) :
    Ensures 0 (JsonMemory.serverStatsToJson malloc allocOk hooks s.synTab.toHashtable) (fun text R =>
      ∃ lost, R = lostCells lost ∧ (Refuses malloc ∨ lost = []) ∧
        (∀ value, text = some value → ∃ part, ItemPartOf part s.report ∧ value = part.print true) ∧
        (s.synTab.entries.length ≤ 2 ^ 30 → (∀ cnt, allocOk cnt = true) → ¬Refuses malloc →
          text = some (s.report.print true) ∨
          text = none ∧ ((∃ k, hooks k = none) ∨ intMax < (s.report.print true).strlen + 2))) := by
  refine (cJsonCreateObject_filling malloc).bind fun a R h => ?_
  refine (statsValues_spec malloc allocOk _).call (F := R) (zero_add R).symm ?_
  rintro ⟨block, values, cnt⟩ S ⟨hblock, n, hvalues, hcnt, hfull⟩
  simp only at hblock hvalues hcnt
  subst hvalues
  refine (membersLoop_filling (by omega) h).call (F := S) (add_comm S R) fun _ T hT => ?_
  rw [hcnt, List.drop_zero, List.take_length, List.nil_append, List.map_map] at hT
  obtain ⟨o, lost, rfl, rfl, hpart, hall⟩ := hT
  have htree (t : PlacedItem ν) (ht : o = some t) : ItemPartOf t.json s.report := by
    rw [json_of_kind (hpart t ht).1, report_take s n]
    exact .object ((hpart t ht).2.append_right _)
  refine (cJsonPrint_spec hooks o fun t ht => ((htree t ht).readable hread).finite).call
    (F := lostCells lost + S) (add_assoc _ _ _) ?_
  rintro text _ ⟨rfl, htext⟩
  refine (cJsonDelete_spec o).call rfl ?_
  rintro _ _ rfl
  refine (releaseValues_spec hblock).call (F := lostCells lost)
    ((zero_add _).trans (add_comm _ _)) ?_
  rintro _ _ rfl
  refine Ensures.pure ⟨lost, zero_add _, hall.imp_right And.left, htext.part htree,
    fun hfew hok hrefuses => ?_⟩
  obtain ⟨-, t, rfl, hdone⟩ := hall.resolve_left hrefuses
  have hjson : t.json = s.report := by
    have hentries : s.synTab.entries.take n = s.synTab.entries := by
      rw [hfull hok hrefuses, List.take_of_length_le hfew]
    rw [json_of_kind (hpart t rfl).1, hdone, hentries]
    simp only [Sniffer.report, memberName_eq]
    rfl
  rw [← hjson]
  exact htext.whole

/-- A client that asks for the report after so many packets, with the answers of the allocator to
the growing array of values and to the printing of its text. -/
structure ReportCall where
  packets : Nat
  allocOk : Int → Bool
  hooks : Hooks

def serveReports (malloc : Allocator ν) (after : Nat → Sniffer) : List ReportCall →
    Routine ν (JsonBlock ν) (List (Option CString))
  | [] => return []
  | call :: calls => do
    let text ← JsonMemory.serverStatsToJson malloc call.allocOk call.hooks
      (after call.packets).synTab.toHashtable
    let texts ← serveReports malloc after calls
    return text :: texts

/-- The text, if there is one, reads back as a part of the report. -/
def ReportCall.PartlyServed (after : Nat → Sniffer) (call : ReportCall) (text : Option CString) : Prop :=
  ∀ value, text = some value → ∃ part, ItemPartOf part (after call.packets).report ∧
    cJsonParse (fun _ => true) value = some (some part.parsed)

def ReportCall.FullyServed (after : Nat → Sniffer) (call : ReportCall) (text : Option CString) : Prop :=
  (after call.packets).synTab.entries.length ≤ 2 ^ 30 → (∀ cnt, call.allocOk cnt = true) →
    text = some ((after call.packets).report.print true) ∨ text = none ∧
      ((∃ k, call.hooks k = none) ∨ intMax < ((after call.packets).report.print true).strlen + 2)

theorem serveReports_spec {after : Nat → Sniffer} (malloc : Allocator ν)
    (hread : ∀ n, (after n).report.Readable nestingLimit) (calls : List ReportCall) :
    Ensures 0 (serveReports malloc after calls) (fun texts R => ∃ lost, R = lostCells lost ∧
      (Refuses malloc ∨ lost = []) ∧ List.Forall₂ (ReportCall.PartlyServed after) calls texts ∧
      (¬Refuses malloc → List.Forall₂ (ReportCall.FullyServed after) calls texts)) := by
  induction calls with
  | nil => exact Ensures.pure ⟨[], rfl, .inr rfl, .nil, fun _ => .nil⟩
  | cons call calls ih =>
    refine (serverStatsToJson_spec malloc call.allocOk call.hooks (hread _)).bind fun text R h => ?_
    obtain ⟨lost, rfl, hlost, hpart, hfull⟩ := h
    refine ih.call (F := lostCells lost) (zero_add _).symm fun texts R' h => ?_
    obtain ⟨lost', rfl, hlost', hparts, hfulls⟩ := h
    refine Ensures.pure ⟨lost' ++ lost, (lostCells_append _ _).symm, ?_,
      .cons (fun value hvalue => ?_) hparts,
      fun hrefuses => .cons (fun hfew hok => hfull hfew hok hrefuses) (hfulls hrefuses)⟩
    · refine or_iff_not_imp_left.mpr fun hrefuses => ?_
      rw [hlost.resolve_left hrefuses, hlost'.resolve_left hrefuses, List.append_nil]
    · obtain ⟨part, hpartOf, rfl⟩ := hpart value hvalue
      exact ⟨part, hpartOf, parseWithOpts_print (fun _ => rfl) (hpartOf.readable (hread _)) true false⟩

/-- Any number of clients ask for the report in the course of a capture, and any allocation may be
refused: no block is touched that is not in use, no other block in use is changed, and each client
reads a part of the report. Only where the allocator refuses something are items lost or missing. -/
theorem reports_under_refusals (opts : Options) (datalink : LinkType) (packets : List Packet)
    (malloc : Allocator ν) (calls : List ReportCall) (m : Memory ν (JsonBlock ν)) :
    ∃ texts m' lost,
      serveReports malloc (fun n => Sniffer.after opts datalink (packets.take n)) calls m = some (texts, m') ∧
      m'.cells = lostCells lost + m.cells ∧
      List.Forall₂ (ReportCall.PartlyServed fun n =>
        Sniffer.after opts datalink (packets.take n)) calls texts ∧
      (¬Refuses malloc → lost = [] ∧
        List.Forall₂ (ReportCall.FullyServed fun n => Sniffer.after opts datalink (packets.take n))
          calls texts) := by
  obtain ⟨texts, m', R, hrun, hcells, lost, rfl, hlost, hparts, hfulls⟩ :=
    serveReports_spec malloc (fun n => report_readable) calls m m.cells (zero_add _).symm
  exact ⟨texts, m', lost, hrun, hcells, hparts,
    fun hrefuses => ⟨hlost.resolve_left hrefuses, hfulls hrefuses⟩⟩

def scarceMemory : Allocator Nat := fun k => if k = 10 then none else some nextAbove

theorem reports_under_refusals_ping : ∃ texts m' lost,
    serveReports scarceMemory (fun n =>
      Sniffer.after pingCapture.opts pingCapture.datalink (pingCapture.packets.take n))
      [⟨3, fun _ => true, fun _ => some fun _ => 0⟩] ⟨∅, 0⟩ = some (texts, m') ∧
    m'.cells = lostCells lost ∧ texts.length = 1 := by
  obtain ⟨texts, m', lost, hrun, hcells, hparts, -⟩ := reports_under_refusals pingCapture.opts
    pingCapture.datalink pingCapture.packets scarceMemory
    [⟨3, fun _ => true, fun _ => some fun _ => 0⟩] ⟨∅, 0⟩
  exact ⟨texts, m', lost, hrun, hcells.trans (add_zero _), hparts.length_eq.symm⟩

end Serving

end Tcpkit
