import Tcpkit.JsonMemory

/-! Trees of items with the addresses of their blocks, the cells such a tree occupies, and what the
functions that link, delete and read items do to it. -/

namespace Tcpkit

open Memory JsonMemory

inductive ItemKind where
  | number (value : Nat)
  | array
  | object

def ItemKind.type : ItemKind → UInt32
  | number _ => cJsonNumber
  | array => cJsonArray
  | object => cJsonObject

/-- A child comes with its key and the block of the key, where it has one. -/
inductive PlacedItem (ν : Type) where
  | node (addr : ν) (kind : ItemKind) (children : List (Option (ν × CString) × PlacedItem ν))

abbrev PlacedChild (ν : Type) := Option (ν × CString) × PlacedItem ν

variable {ν : Type}

namespace PlacedItem

def addr : PlacedItem ν → ν
  | node a _ _ => a

def kind : PlacedItem ν → ItemKind
  | node _ k _ => k

def children : PlacedItem ν → List (PlacedChild ν)
  | node _ _ cs => cs

def push (t : PlacedItem ν) (c : PlacedChild ν) : PlacedItem ν := node t.addr t.kind (t.children ++ [c])

def first (cs : List (PlacedChild ν)) : Option ν := cs.head?.map fun c => c.2.addr

def last (cs : List (PlacedChild ν)) : Option ν := cs.getLast?.map fun c => c.2.addr

def block (t : PlacedItem ν) (string prev next : Option ν) : CJson ν where
  next := next
  prev := prev
  child := first t.children
  type := t.kind.type
  valueString := none
  valueInt := match t.kind with
    | .number value => if value ≥ intMax then intMax else value
    | _ => 0
  valueDouble := match t.kind with
    | .number value => value
    | _ => 0
  string := string

def keyCells : Option (ν × CString) → Cells ν (JsonBlock ν)
  | none => 0
  | some (n, key) => cell n (.text key)

mutual

/-- The cells of the children; the first child points back to the last one. -/
def cellsBelow : PlacedItem ν → Cells ν (JsonBlock ν)
  | node _ _ cs => childCells (last cs) none cs

/-- The cells of siblings in a row, from the one before them to the one behind them. -/
def childCells (prev stop : Option ν) : List (PlacedChild ν) → Cells ν (JsonBlock ν)
  | [] => 0
  | (key, t) :: cs =>
    keyCells key + (cell t.addr (.item (t.block (key.map Prod.fst) prev ((first cs).or stop))) +
      t.cellsBelow) +
      childCells (some t.addr) stop cs

end

def itemCells (t : PlacedItem ν) (string prev next : Option ν) : Cells ν (JsonBlock ν) :=
  cell t.addr (.item (t.block string prev next)) + t.cellsBelow

def keyText : Option (ν × CString) → CString
  | none => emptyText
  | some (_, key) => key

def rootCells : Option (PlacedItem ν) → Cells ν (JsonBlock ν)
  | none => 0
  | some t => t.itemCells none none none

mutual

def json : PlacedItem ν → JsonItem Nat
  | node _ (.number value) _ => .number value
  | node _ .array cs => .array ((jsonMembers cs).map Prod.snd)
  | node _ .object cs => .object (jsonMembers cs)

def jsonMembers : List (PlacedChild ν) → List (CString × JsonItem Nat)
  | [] => []
  | (key, t) :: cs => (keyText key, t.json) :: jsonMembers cs

end

theorem block_prev (t : PlacedItem ν) (string prev next p : Option ν) :
    { t.block string prev next with prev := p } = t.block string p next := rfl

theorem block_next (t : PlacedItem ν) (string prev next n : Option ν) :
    { t.block string prev next with next := n } = t.block string prev n := rfl

theorem block_ends (t : PlacedItem ν) (string prev next p n : Option ν) :
    { t.block string prev next with prev := p, next := n } = t.block string p n := rfl

theorem cellsBelow_eq (t : PlacedItem ν) : t.cellsBelow = childCells (last t.children) none t.children := by
  cases t
  rfl

theorem itemCells_eq (t : PlacedItem ν) (string prev next : Option ν) : t.itemCells string prev next =
    cell t.addr (.item (t.block string prev next)) + childCells (last t.children) none t.children := by
  cases t
  rfl

section Forms

variable {t u : PlacedItem ν} {key : Option (ν × CString)} {xs ys : List (PlacedChild ν)}
  {prev stop : Option ν}

theorem first_append : first (xs ++ ys) = (first xs).or (first ys) := by
  cases xs with
  | nil => simp [first]
  | cons x xs => simp [first]

theorem last_append : last (xs ++ ys) = (last ys).or (last xs) := by
  cases ys using List.reverseRecOn with
  | nil => simp [last]
  | append_singleton ys y => simp [last, ← List.append_assoc]

theorem push_children (t : PlacedItem ν) (c : PlacedChild ν) : (t.push c).children = t.children ++ [c] := rfl

theorem first_single : first [(key, t)] = some t.addr := rfl

theorem last_single : last [(key, t)] = some t.addr := rfl

theorem childCells_append : childCells prev stop (xs ++ ys) =
    childCells prev ((first ys).or stop) xs + childCells ((last xs).or prev) stop ys := by
  induction xs generalizing prev with
  | nil => simp [childCells, last]
  | cons x xs ih =>
    obtain ⟨key, t⟩ := x
    have hlast : (last ((key, t) :: xs)).or prev = (last xs).or (some t.addr) := by
      simp only [last, List.getLast?_cons, Option.map_some, Option.some_or]
      cases xs.getLast? <;> rfl
    rw [List.cons_append, childCells, childCells, ih, first_append, Option.or_assoc, hlast]
    abel

theorem childCells_single :
    childCells prev stop [(key, t)] = keyCells key + t.itemCells (key.map Prod.fst) prev stop := by
  simp [childCells, itemCells, first]

theorem push_itemCells (t u : PlacedItem ν) (key : Option (ν × CString)) (string prev next : Option ν) :
    (t.push (key, u)).itemCells string prev next =
      cell t.addr (.item { t.block string prev next with child := first (t.children ++ [(key, u)]) }) +
        (childCells (some u.addr) (some u.addr) t.children +
          (keyCells key + u.itemCells (key.map Prod.fst) ((last t.children).or (some u.addr)) none)) := by
  rw [itemCells_eq, push_children, childCells_append, childCells_single, last_append,
    first_single, last_single]
  rfl

/-- Only the block of the first sibling tells what stands before them, only that of the last one what
stands behind them. -/
theorem childCells_ends {ckey lkey : Option (ν × CString)} {c l : PlacedItem ν} {mid : List (PlacedChild ν)} :
    childCells prev stop ((ckey, c) :: (mid ++ [(lkey, l)])) =
      cell c.addr (.item (c.block (ckey.map Prod.fst) prev (first (mid ++ [(lkey, l)])))) +
        (cell l.addr (.item (l.block (lkey.map Prod.fst) (last ((ckey, c) :: mid)) stop)) +
          (keyCells ckey + c.cellsBelow + childCells (some c.addr) (some l.addr) mid + keyCells lkey +
            l.cellsBelow)) := by
  have hlast : (last mid).or (some c.addr) = last ((ckey, c) :: mid) := by
    rw [← List.singleton_append, last_append, last_single]
  have hstop : (first (mid ++ [(lkey, l)])).or stop = first (mid ++ [(lkey, l)]) := by
    rw [first_append, first_single]
    cases first mid <;> rfl
  rw [childCells, childCells_append, childCells_single, hlast, hstop, first_single, Option.some_or, itemCells]
  abel

theorem card_childCells_cons : Multiset.card (childCells prev stop ((key, t) :: xs)) =
    Multiset.card (keyCells key) + (1 + Multiset.card t.cellsBelow) +
      Multiset.card (childCells (some t.addr) stop xs) := by
  rw [childCells, Multiset.card_add, Multiset.card_add, Multiset.card_add, cell, Multiset.card_singleton]

theorem jsonMembers_append : jsonMembers (xs ++ ys) = jsonMembers xs ++ jsonMembers ys := by
  induction xs with
  | nil => rfl
  | cons x xs ih =>
    obtain ⟨key, t⟩ := x
    rw [List.cons_append, jsonMembers, jsonMembers, ih, List.cons_append]

end Forms

end PlacedItem

namespace JsonMemory

open PlacedItem

variable {α : Type} [DecidableEq ν] {P F : Cells ν (JsonBlock ν)} {n : ν}
  {f : CJson ν → Routine ν (JsonBlock ν) α} {Z : α → Cells ν (JsonBlock ν) → Prop}

theorem loadItem_bind (item : CJson ν) (F : Cells ν (JsonBlock ν)) (hP : P = cell n (.item item) + F)
    (hf : Ensures P (f item) Z) : Ensures P (loadItem n >>= f) Z := by
  have hload : Ensures P (loadItem n) (fun i R => i = item ∧ R = P) := by
    refine (Ensures.load hP).bind ?_
    rintro _ _ ⟨rfl, rfl⟩
    exact Ensures.pure ⟨rfl, rfl⟩
  refine hload.bind ?_
  rintro _ _ ⟨rfl, rfl⟩
  exact hf

theorem modifyItem_spec (item : CJson ν) (F : Cells ν (JsonBlock ν)) (hP : P = cell n (.item item) + F)
    (g : CJson ν → CJson ν) : Ensures P (modifyItem n g) (fun _ R => R = cell n (.item (g item)) + F) :=
  loadItem_bind item F hP (Ensures.store hP _)

theorem modifyItem_bind (item : CJson ν) (F : Cells ν (JsonBlock ν)) (hP : P = cell n (.item item) + F)
    {g : CJson ν → CJson ν} {f : Unit → Routine ν (JsonBlock ν) α}
    (hf : Ensures (cell n (.item (g item)) + F) (f ()) Z) : Ensures P (modifyItem n g >>= f) Z := by
  refine (modifyItem_spec item F hP g).bind ?_
  rintro _ _ rfl
  exact hf

theorem release_spec {key : Option (ν × CString)} (hP : P = keyCells key + F) :
    Ensures P (release (key.map Prod.fst)) (fun _ R => R = F) := by
  cases key with
  | none => exact Ensures.pure (hP.trans (zero_add F))
  | some key => exact Ensures.free hP

section Linking

variable {a i c l : ν}

theorem suffixObject_bind (p : ν) (pitem item : CJson ν) (F : Cells ν (JsonBlock ν))
    {f : Unit → Routine ν (JsonBlock ν) α} (hP : P = cell p (.item pitem) + (cell i (.item item) + F))
    (hf : Ensures (cell p (.item { pitem with next := some i }) +
      (cell i (.item { item with prev := some p }) + F)) (f ()) Z) :
        Ensures P (suffixObject p i >>= f) Z := by
  have hspec : Ensures P (suffixObject p i) (fun _ R => R = cell p (.item { pitem with next := some i }) +
      (cell i (.item { item with prev := some p }) + F)) := by
    refine modifyItem_bind pitem _ hP ?_
    refine (modifyItem_spec item (cell p (.item { pitem with next := some i }) + F) (by abel) _).mono ?_
    rintro _ _ rfl
    abel
  refine hspec.bind ?_
  rintro _ _ rfl
  exact hf

theorem addItemToArray_empty (array item : CJson ν) (F : Cells ν (JsonBlock ν)) (hchild : array.child = none)
    (hP : P = cell a (.item array) + (cell i (.item item) + F)) :
    Ensures P (addItemToArray (some a) (some i)) (fun ok R => ok = true ∧
      R = cell a (.item { array with child := some i }) +
        (cell i (.item { item with prev := some i, next := none }) + F)) := by
  refine loadItem_bind array _ hP ?_
  simp only [hchild]
  refine modifyItem_bind array _ hP ?_
  refine modifyItem_bind item (cell a (.item { array with child := some i }) + F) (by abel) ?_
  exact Ensures.pure ⟨rfl, by abel⟩

theorem addItemToArray_second (array child item : CJson ν) (F : Cells ν (JsonBlock ν))
    (hchild : array.child = some c) (hprev : child.prev = some c)
    (hP : P = cell a (.item array) + (cell c (.item child) + (cell i (.item item) + F))) :
    Ensures P (addItemToArray (some a) (some i)) (fun ok R => ok = true ∧
      R = cell a (.item array) + (cell c (.item { child with next := some i, prev := some i }) +
        (cell i (.item { item with prev := some c }) + F))) := by
  refine loadItem_bind array _ hP ?_
  simp only [hchild]
  refine loadItem_bind child (cell a (.item array) + (cell i (.item item) + F)) (by rw [hP]; abel) ?_
  simp only [hprev]
  refine suffixObject_bind c child item (cell a (.item array) + F) (by rw [hP]; abel) ?_
  refine loadItem_bind array (cell c (.item { child with next := some i }) +
    (cell i (.item { item with prev := some c }) + F)) (by abel) ?_
  simp only [hchild]
  refine modifyItem_bind { child with next := some i } (cell a (.item array) +
    (cell i (.item { item with prev := some c }) + F)) (by abel) ?_
  exact Ensures.pure ⟨rfl, by abel⟩

theorem addItemToArray_later (array child lastItem item : CJson ν) (F : Cells ν (JsonBlock ν))
    (hchild : array.child = some c) (hprev : child.prev = some l)
    (hP : P = cell a (.item array) +
      (cell c (.item child) + (cell l (.item lastItem) + (cell i (.item item) + F)))) :
    Ensures P (addItemToArray (some a) (some i)) (fun ok R => ok = true ∧
      R = cell a (.item array) + (cell c (.item { child with prev := some i }) +
        (cell l (.item { lastItem with next := some i }) +
          (cell i (.item { item with prev := some l }) + F)))) := by
  refine loadItem_bind array _ hP ?_
  simp only [hchild]
  refine loadItem_bind child (cell a (.item array) + (cell l (.item lastItem) + (cell i (.item item) + F)))
    (by rw [hP]; abel) ?_
  simp only [hprev]
  refine suffixObject_bind l lastItem item (cell a (.item array) + (cell c (.item child) + F))
    (by rw [hP]; abel) ?_
  refine loadItem_bind array (cell c (.item child) + (cell l (.item { lastItem with next := some i }) +
    (cell i (.item { item with prev := some l }) + F))) (by abel) ?_
  simp only [hchild]
  refine modifyItem_bind child (cell a (.item array) + (cell l (.item { lastItem with next := some i }) +
    (cell i (.item { item with prev := some l }) + F))) (by abel) ?_
  exact Ensures.pure ⟨rfl, by abel⟩

/-- An item is linked behind the children that an array or object has already. -/
theorem addItemToArray_spec (t u : PlacedItem ν) (key : Option (ν × CString)) (string prev next : Option ν) :
    Ensures (t.itemCells string prev next + (keyCells key + u.itemCells (key.map Prod.fst) none none))
      (addItemToArray (some t.addr) (some u.addr))
      (fun ok R => ok = true ∧ R = (t.push (key, u)).itemCells string prev next) := by
  have hchild : (t.block string prev next).child = first t.children := rfl
  rw [push_itemCells, itemCells_eq, u.itemCells_eq (key.map Prod.fst) none none,
    u.itemCells_eq (key.map Prod.fst)]
  generalize childCells (last u.children) none u.children = inner
  cases hcs : t.children with
  | nil =>
    rw [hcs] at hchild
    refine (addItemToArray_empty _ (u.block (key.map Prod.fst) none none) (keyCells key + inner)
      hchild ?_).mono fun ok R h => ⟨h.1, h.2.trans ?_⟩
    · rw [childCells]
      abel
    · have hlast : (last ([] : List (PlacedChild ν))).or (some u.addr) = some u.addr := rfl
      rw [childCells, List.nil_append, first_single, block_ends, hlast]
      abel
  | cons c cs =>
    obtain ⟨ckey, c⟩ := c
    rw [hcs] at hchild
    have hself : { t.block string prev next with child := some c.addr } = t.block string prev next := by
      rw [show some c.addr = (t.block string prev next).child from hchild.symm]
    have hfirst : first ((ckey, c) :: cs ++ [(key, u)]) = some c.addr := rfl
    rw [hfirst, hself]
    cases cs using List.reverseRecOn with
    | nil =>
      rw [childCells_single, childCells_single, c.itemCells_eq, c.itemCells_eq, last_single]
      generalize childCells (last c.children) none c.children = inside
      refine (addItemToArray_second _ (c.block (ckey.map Prod.fst) (some c.addr) none)
        (u.block (key.map Prod.fst) none none) (keyCells ckey + inside + keyCells key + inner)
        hchild rfl ?_).mono fun ok R h => ⟨h.1, h.2.trans ?_⟩
      · abel
      · rw [block_ends, block_prev, Option.some_or]
        abel
    | append_singleton mid l =>
      obtain ⟨lkey, l⟩ := l
      have hlast : last ((ckey, c) :: (mid ++ [(lkey, l)])) = some l.addr := by
        rw [← List.cons_append, last_append, last_single, Option.some_or]
      rw [hlast, Option.some_or, childCells_ends, childCells_ends]
      generalize keyCells ckey + c.cellsBelow + childCells (some c.addr) (some l.addr) mid + keyCells lkey +
        l.cellsBelow = inside
      refine (addItemToArray_later _ (c.block (ckey.map Prod.fst) (some l.addr) (first (mid ++ [(lkey, l)])))
        (l.block (lkey.map Prod.fst) (last ((ckey, c) :: mid)) none) (u.block (key.map Prod.fst) none none)
        (inside + keyCells key + inner) hchild rfl ?_).mono fun ok R h => ⟨h.1, h.2.trans ?_⟩
      · abel
      · rw [block_prev, block_next, block_prev]
        abel

theorem type_cases (k : ItemKind) : k.type = cJsonNumber ∨ k.type = cJsonArray ∨ k.type = cJsonObject := by
  cases k with
  | number => exact .inl rfl
  | array => exact .inr (.inl rfl)
  | object => exact .inr (.inr rfl)

theorem type_and_reference (k : ItemKind) : k.type &&& cJsonIsReference = 0 := by
  rcases type_cases k with h | h | h <;> rw [h] <;> decide

theorem type_and_const (k : ItemKind) : k.type &&& cJsonStringIsConst = 0 := by
  rcases type_cases k with h | h | h <;> rw [h] <;> decide

theorem type_without_const (k : ItemKind) : k.type &&& ~~~cJsonStringIsConst = k.type := by
  rcases type_cases k with h | h | h <;> rw [h] <;> decide

/-- The item gets its key and is linked, or it is left alone where the key cannot be copied. -/
theorem addItemToObject_spec (malloc : Allocator ν) (t u : PlacedItem ν) (key : CString)
    (string prev next : Option ν) :
    Ensures (t.itemCells string prev next + u.itemCells none none none)
      (addItemToObject malloc (some t.addr) key (some u.addr)) (fun ok R =>
        ok = true ∧ (∃ k, R = (t.push (some (k, key), u)).itemCells string prev next) ∨
        ok = false ∧ R = t.itemCells string prev next + u.itemCells none none none ∧ Refuses malloc) := by
  refine (Ensures.alloc malloc (JsonBlock.text key)).bind ?_
  rintro _ _ (⟨rfl, rfl, hrefuses⟩ | ⟨k, rfl, rfl⟩)
  · exact Ensures.pure (.inr ⟨rfl, rfl, hrefuses⟩)
  refine loadItem_bind (u.block none none none)
    (cell k (.text key) + (t.itemCells string prev next + u.cellsBelow))
    (by unfold itemCells; abel) ?_
  have htype : (u.block none none none).type = u.kind.type := rfl
  simp only [htype, type_and_const, if_true, type_without_const]
  refine (Ensures.pure (Q := fun _ R => R = _) rfl).bind ?_
  rintro _ _ rfl
  refine modifyItem_bind (u.block none none none)
    (cell k (.text key) + (t.itemCells string prev next + u.cellsBelow))
    (by unfold itemCells; abel) ?_
  have hcells : cell u.addr (JsonBlock.item (u.block (some k) none none)) +
      (cell k (.text key) + (t.itemCells string prev next + u.cellsBelow)) =
      t.itemCells string prev next + (keyCells (some (k, key)) + u.itemCells (some k) none none) := by
    unfold itemCells keyCells
    abel
  change Ensures (cell u.addr (JsonBlock.item (u.block (some k) none none)) + _) _ _
  rw [hcells]
  refine (addItemToArray_spec t u (some (k, key)) string prev next).mono ?_
  rintro ok R ⟨rfl, rfl⟩
  exact .inl ⟨rfl, k, rfl⟩

end Linking

section Creating

theorem createItem_spec (malloc : Allocator ν) (k : ItemKind) (fields : CJson ν → CJson ν)
    (hfields : ∀ n : ν, fields ⟨none, none, none, 0, none, 0, 0, none⟩ = (node n k []).block none none none) :
    Ensures P (createItem malloc fields) (fun a R => a = none ∧ R = P ∧ Refuses malloc ∨
      ∃ n, a = some n ∧ R = (node n k []).itemCells none none none + P) := by
  refine (Ensures.alloc malloc _).bind ?_
  rintro _ _ (⟨rfl, rfl, hrefuses⟩ | ⟨n, rfl, rfl⟩)
  · exact Ensures.pure (.inl ⟨rfl, rfl, hrefuses⟩)
  refine modifyItem_bind _ _ rfl ?_
  refine Ensures.pure (.inr ⟨n, rfl, ?_⟩)
  rw [hfields n, itemCells_eq]
  rfl

end Creating

section Deleting

theorem deleteLoop_spec (fuel : Nat) (cs : List (PlacedChild ν)) (prev : Option ν)
    (hfuel : Multiset.card (childCells prev none cs) ≤ fuel) :
    Ensures (childCells prev none cs) (deleteLoop fuel (first cs)) (fun _ R => R = 0) := by
  induction fuel generalizing cs prev with
  | zero =>
    cases cs with
    | nil => exact Ensures.pure rfl
    | cons c cs =>
      rw [card_childCells_cons] at hfuel
      omega
  | succ fuel ih =>
    cases cs with
    | nil => exact Ensures.pure rfl
    | cons c cs =>
      obtain ⟨key, t⟩ := c
      rw [card_childCells_cons] at hfuel
      rw [childCells, Option.or_none]
      have hbelow := ih t.children (last t.children) (by rw [← cellsBelow_eq]; omega)
      have hrest := ih cs (some t.addr) (by omega)
      rw [← cellsBelow_eq] at hbelow
      generalize hafter : childCells (some t.addr) none cs = after at hrest hfuel
      refine loadItem_bind (t.block (key.map Prod.fst) prev (first cs)) (keyCells key + t.cellsBelow + after)
        (by abel) ?_
      have htype : (t.block (key.map Prod.fst) prev (first cs)).type = t.kind.type := rfl
      simp only [htype, type_and_reference, type_and_const, if_true]
      refine hbelow.call
        (F := keyCells key + cell t.addr (.item (t.block (key.map Prod.fst) prev (first cs))) + after)
        (by abel) ?_
      rintro _ _ rfl
      refine (Ensures.pure (Q := fun _ R => R = _) rfl).bind ?_
      rintro _ _ rfl
      refine (release_spec (F := cell t.addr (.item (t.block (key.map Prod.fst) prev (first cs))) + after)
        (by abel)).bind ?_
      rintro _ _ rfl
      refine (Ensures.free rfl).bind ?_
      rintro _ _ rfl
      exact hrest

theorem cJsonDelete_spec (o : Option (PlacedItem ν)) :
    Ensures (rootCells o) (cJsonDelete (o.map addr)) (fun _ R => R = 0) := by
  cases o with
  | none =>
    refine Ensures.size.bind ?_
    rintro fuel _ ⟨-, rfl⟩
    cases fuel <;> exact Ensures.pure rfl
  | some t =>
    have hroot : rootCells (some t) = childCells none none [(none, t)] := by
      rw [childCells_single]
      exact (zero_add _).symm
    rw [hroot]
    refine Ensures.size.bind ?_
    rintro fuel _ ⟨hfuel, rfl⟩
    exact deleteLoop_spec fuel [(none, t)] none hfuel

end Deleting

section Reading

theorem readText_spec {key : Option (ν × CString)} (hP : P = keyCells key + F) :
    Ensures P (readText (key.map Prod.fst)) (fun s R => s = keyText key ∧ R = P) := by
  cases key with
  | none => exact Ensures.pure ⟨rfl, rfl⟩
  | some key =>
    refine (Ensures.load hP).bind ?_
    rintro _ _ ⟨rfl, rfl⟩
    exact Ensures.pure ⟨rfl, rfl⟩

section

variable {children : Option ν → Routine ν (JsonBlock ν) (List (CString × JsonItem Nat))} {item : CJson ν}

theorem itemValue_number (h : item.type = cJsonNumber) :
    itemValue children item = pure (.number item.valueDouble) := by
  have hand : cJsonNumber &&& 0xff = cJsonNumber := by decide
  simp only [itemValue, h, hand]
  rw [if_neg (by decide), if_neg (by decide), if_neg (by decide), if_pos trivial]

theorem itemValue_array (h : item.type = cJsonArray) :
    itemValue children item = (do return .array ((← children item.child).map Prod.snd)) := by
  have hand : cJsonArray &&& 0xff = cJsonArray := by decide
  simp only [itemValue, h, hand]
  rw [if_neg (by decide), if_neg (by decide), if_neg (by decide), if_neg (by decide), if_neg (by decide),
    if_pos trivial]

theorem itemValue_object (h : item.type = cJsonObject) :
    itemValue children item = (do return .object (← children item.child)) := by
  have hand : cJsonObject &&& 0xff = cJsonObject := by decide
  simp only [itemValue, h, hand]
  rw [if_neg (by decide), if_neg (by decide), if_neg (by decide), if_neg (by decide), if_neg (by decide),
    if_neg (by decide), if_pos trivial]

end

theorem itemValue_spec {children : Option ν → Routine ν (JsonBlock ν) (List (CString × JsonItem Nat))}
    (t : PlacedItem ν) (string prev next : Option ν)
    (hchildren : Ensures t.cellsBelow (children (first t.children))
      (fun l R => l = jsonMembers t.children ∧ R = t.cellsBelow)) :
    Ensures t.cellsBelow (itemValue children (t.block string prev next))
      (fun v R => v = t.json ∧ R = t.cellsBelow) := by
  obtain ⟨a, k, cs⟩ := t
  cases k with
  | number value =>
    rw [itemValue_number rfl]
    exact Ensures.pure ⟨rfl, rfl⟩
  | array =>
    rw [itemValue_array rfl]
    refine hchildren.bind ?_
    rintro _ _ ⟨rfl, rfl⟩
    exact Ensures.pure ⟨rfl, rfl⟩
  | object =>
    rw [itemValue_object rfl]
    refine hchildren.bind ?_
    rintro _ _ ⟨rfl, rfl⟩
    exact Ensures.pure ⟨rfl, rfl⟩

theorem readItems_spec (fuel : Nat) (cs : List (PlacedChild ν)) (prev : Option ν)
    (hfuel : Multiset.card (childCells prev none cs) ≤ fuel) :
    Ensures (childCells prev none cs) (readItems fuel (first cs))
      (fun l R => l = jsonMembers cs ∧ R = childCells prev none cs) := by
  induction fuel generalizing cs prev with
  | zero =>
    cases cs with
    | nil => exact Ensures.pure ⟨rfl, rfl⟩
    | cons c cs =>
      rw [card_childCells_cons] at hfuel
      omega
  | succ fuel ih =>
    cases cs with
    | nil => exact Ensures.pure ⟨rfl, rfl⟩
    | cons c cs =>
      obtain ⟨key, t⟩ := c
      rw [card_childCells_cons] at hfuel
      have hbelow := ih t.children (last t.children) (by rw [← cellsBelow_eq]; omega)
      have hrest := ih cs (some t.addr) (by omega)
      rw [← cellsBelow_eq] at hbelow
      rw [childCells, Option.or_none]
      generalize hafter : childCells (some t.addr) none cs = after at hrest hfuel
      refine loadItem_bind (t.block (key.map Prod.fst) prev (first cs)) (keyCells key + t.cellsBelow + after)
        (by abel) ?_
      refine (readText_spec (F := cell t.addr (.item (t.block (key.map Prod.fst) prev (first cs))) +
        t.cellsBelow + after) (by abel)).bind ?_
      rintro _ _ ⟨rfl, rfl⟩
      refine (itemValue_spec t _ _ _ hbelow).call (F := keyCells key +
        cell t.addr (.item (t.block (key.map Prod.fst) prev (first cs))) + after) (by abel) ?_
      rintro _ _ ⟨rfl, rfl⟩
      refine hrest.call (F := keyCells key + (cell t.addr
        (.item (t.block (key.map Prod.fst) prev (first cs))) +
        t.cellsBelow)) (by abel) ?_
      rintro _ _ ⟨rfl, rfl⟩
      exact Ensures.pure ⟨rfl, by abel⟩

end Reading

end JsonMemory

end Tcpkit
