import Tcpkit.DnsDecoder

/-! Domain names on the wire, as `read_domain` of `dns.lua` reads them: the labels come
back in full, anything else is an error, and nothing behind the message is looked at. -/

namespace Tcpkit

def encodeName (labels : List LuaString) : LuaString :=
  labels.flatMap (fun label => UInt8.ofNat label.length :: label) ++ [0]

/-- The labels, each with a dot behind it. -/
def dotted (labels : List LuaString) : LuaString := labels.flatMap fun label => label ++ luaLiteral "."

/-- The name made of the given labels stands at offset `i`. -/
def EncodedAt (p : LuaString) (i : Nat) (labels : List LuaString) : Prop :=
  (∀ label ∈ labels, 1 ≤ label.length ∧ label.length ≤ 255) ∧ encodeName labels <+: p.drop i

variable {p : LuaString} {i : Nat}

theorem drop_eq_byte_cons (h : i < p.length) : p.drop i = byte p i :: p.drop (i + 1) := by
  rw [List.drop_eq_getElem_cons h]
  simp [byte, h]

theorem encodeName_cons (label : LuaString) (labels : List LuaString) :
    encodeName (label :: labels) = UInt8.ofNat label.length :: (label ++ encodeName labels) := by
  simp [encodeName]

theorem append_prefix_iff {α : Type} (s t l : List α) :
    s ++ t <+: l ↔ l.take s.length = s ∧ t <+: l.drop s.length := by
  constructor
  · rintro ⟨rest, rfl⟩
    rw [List.append_assoc, List.take_left, List.drop_left]
    exact ⟨rfl, List.prefix_append t rest⟩
  · rintro ⟨htake, hdrop⟩
    rw [← List.take_append_drop s.length l, htake]
    exact (List.prefix_append_right_inj s).mpr hdrop

namespace EncodedAt

theorem lt_length {labels : List LuaString} (h : EncodedAt p i labels) : i < p.length := by
  have hlen := h.2.length_le
  rw [List.length_drop, encodeName, List.length_append, List.length_singleton] at hlen
  omega

theorem end_le {labels : List LuaString} (h : EncodedAt p i labels) :
    i + (encodeName labels).length ≤ p.length := by
  have hlt := h.lt_length
  have hlen := h.2.length_le
  rw [List.length_drop] at hlen
  omega

theorem nil_iff (hi : i < p.length) : EncodedAt p i [] ↔ byte p i = 0 := by
  rw [EncodedAt, drop_eq_byte_cons hi, encodeName, List.flatMap_nil, List.nil_append,
    List.cons_prefix_cons]
  exact ⟨fun h => h.2.1.symm, fun h => ⟨by simp, h.symm, List.nil_prefix⟩⟩

theorem cons_iff (hi : i < p.length) (label : LuaString) (labels : List LuaString) :
    EncodedAt p i (label :: labels) ↔
      (1 ≤ label.length ∧ label.length ≤ 255) ∧ label.length = (byte p i).toNat ∧
        (p.drop (i + 1)).take label.length = label ∧ EncodedAt p (i + 1 + label.length) labels := by
  rw [EncodedAt, EncodedAt, drop_eq_byte_cons hi, encodeName_cons, List.cons_prefix_cons,
    append_prefix_iff, List.forall_mem_cons, List.drop_drop]
  constructor
  · rintro ⟨⟨hlabel, hrest⟩, hbyte, htake, hname⟩
    have hnat := UInt8.toNat_ofNat_of_lt' (show label.length < UInt8.size by rw [UInt8.size]; omega)
    exact ⟨hlabel, by rw [← hbyte, hnat], htake, hrest, hname⟩
  · rintro ⟨hlabel, hbyte, htake, hrest, hname⟩
    exact ⟨⟨hlabel, hrest⟩, by rw [hbyte, UInt8.ofNat_toNat], htake, hname⟩

end EncodedAt

namespace Decoder

variable {fuel : Nat} (domain : LuaString)

theorem stringSub_eq (k : Nat) : stringSub p (i + 2) (i + 2 + k - 1) = (p.drop (i + 1)).take k := by
  rw [stringSub]
  congr 1
  omega

/-- The labels of a name are returned, and the cursor is behind its last byte. -/
theorem domainLoop_encoded {labels : List LuaString} (h : EncodedAt p i labels)
    (hfuel : p.length < i + fuel) :
    domainLoop fuel p i domain =
      .ok ((some (domain ++ dotted labels), none), reading p (i + (encodeName labels).length)) := by
  have hi := h.lt_length
  obtain ⟨fuel, rfl⟩ : ∃ n, fuel = n + 1 := ⟨fuel - 1, by omega⟩
  induction labels generalizing i fuel domain with
  | nil =>
    rw [domainLoop_root domain hi ((EncodedAt.nil_iff hi).mp h)]
    simp [dotted, encodeName]
  | cons label labels ih =>
    obtain ⟨hlabel, hbyte, htake, hrest⟩ := (EncodedAt.cons_iff hi label labels).mp h
    have hnext := hrest.lt_length
    have h0 : byte p i ≠ 0 := by
      intro hzero
      rw [hzero] at hbyte
      have hnat : (0 : UInt8).toNat = 0 := rfl
      omega
    obtain ⟨fuel, rfl⟩ : ∃ n, fuel = n + 1 := ⟨fuel - 1, by omega⟩
    rw [domainLoop_size domain hi h0, if_neg (by omega), stringSub_eq, ← hbyte, htake,
      ih _ hrest hnext fuel (by omega), encodeName_cons]
    have hcursor : i + 1 + label.length + (encodeName labels).length =
        i + (UInt8.ofNat label.length :: (label ++ encodeName labels)).length := by
      rw [List.length_cons, List.length_append]
      omega
    have htext : domain ++ label ++ luaLiteral "." ++ dotted labels = domain ++ dotted (label :: labels) := by
      simp [dotted]
    rw [hcursor, htext]

/-- Where no name stands the result is nil with an error. -/
theorem domainLoop_unencoded (hnone : ∀ labels, ¬EncodedAt p i labels) (hpos : 0 < fuel)
    (hfuel : p.length < i + fuel) :
    ∃ err j, domainLoop fuel p i domain = .ok ((none, some err), reading p j) ∧
      (i ≤ p.length → j ≤ p.length) := by
  induction fuel generalizing i domain with
  | zero => omega
  | succ fuel ih =>
    by_cases hi : i < p.length
    · have h0 : byte p i ≠ 0 := fun hzero => hnone [] ((EncodedAt.nil_iff hi).mpr hzero)
      have hsize : (byte p i).toNat ≠ 0 := fun h => h0 (UInt8.toNat_inj.mp h)
      rw [domainLoop_size domain hi h0]
      by_cases hfits : i + 1 + (byte p i).toNat ≤ p.length
      · -- A name behind the label would make one that starts here.
        have hbehind : ∀ labels, ¬EncodedAt p (i + 1 + (byte p i).toNat) labels := by
          intro labels hrest
          have hlength : ((p.drop (i + 1)).take (byte p i).toNat).length = (byte p i).toNat := by
            rw [List.length_take, List.length_drop]
            omega
          have hbyte := (byte p i).toNat_lt
          refine hnone ((p.drop (i + 1)).take (byte p i).toNat :: labels)
            ((EncodedAt.cons_iff hi _ _).mpr ⟨by omega, hlength, by rw [hlength], ?_⟩)
          rw [hlength]
          exact hrest
        rw [if_neg (by omega)]
        obtain ⟨err, j, hloop, hj⟩ := ih _ hbehind (by omega) (by omega)
        exact ⟨err, j, hloop, fun _ => hj hfits⟩
      · rw [if_pos (by omega)]
        exact ⟨_, i + 1, rfl, fun _ => hi⟩
    · rw [domainLoop_end domain (by omega)]
      exact ⟨_, i, rfl, id⟩

/-- More fuel changes nothing. -/
theorem domainLoop_fuel {fuel' : Nat} (hpos : 0 < fuel) (hfuel : p.length < i + fuel)
    (hle : fuel ≤ fuel') : domainLoop fuel' p i domain = domainLoop fuel p i domain := by
  induction fuel generalizing i domain fuel' with
  | zero => omega
  | succ fuel ih =>
    obtain ⟨fuel', rfl⟩ : ∃ n, fuel' = n + 1 := ⟨fuel' - 1, by omega⟩
    by_cases hi : i < p.length
    · by_cases h0 : byte p i = 0
      · rw [domainLoop_root domain hi h0, domainLoop_root domain hi h0]
      · have hsize : (byte p i).toNat ≠ 0 := fun h => h0 (UInt8.toNat_inj.mp h)
        rw [domainLoop_size domain hi h0, domainLoop_size domain hi h0]
        split
        · rfl
        · exact ih _ (by omega) (by omega) (by omega)
    · rw [domainLoop_end domain (by omega), domainLoop_end domain (by omega)]

/-- The decoder with more bytes behind its message. -/
def pad (d : Decoder) (tail : LuaString) : Decoder := { d with payload := d.payload ++ tail }

@[simp] theorem pad_pos (d : Decoder) (tail : LuaString) : (d.pad tail).pos = d.pos := rfl

@[simp] theorem pad_payload (d : Decoder) (tail : LuaString) :
    (d.pad tail).payload = d.payload ++ tail := rfl

theorem readInt8_end {d : Decoder} (h : (d.pos : Int) > d.size) :
    d.readInt8 = ((none, some "Read out of bound."), d) := by
  rw [readInt8, if_pos h]

theorem readInt8_byte {d : Decoder} (h : ¬(d.pos : Int) > d.size) :
    d.readInt8 = ((stringByte d.payload d.pos, none), { d with pos := d.pos + 1 }) := by
  rw [readInt8, if_neg h]

theorem readInt8_pad (d : Decoder) (tail : LuaString) (hsize : d.size ≤ d.payload.length)
    (hpos : 1 ≤ d.pos) : (d.pad tail).readInt8 = (d.readInt8.1, d.readInt8.2.pad tail) := by
  by_cases hend : (d.pos : Int) > d.size
  · have hpad : ((d.pad tail).pos : Int) > (d.pad tail).size := hend
    rw [readInt8_end hpad, readInt8_end hend]
  · have hpad : ¬((d.pad tail).pos : Int) > (d.pad tail).size := hend
    have hbyte : stringByte (d.payload ++ tail) d.pos = stringByte d.payload d.pos := by
      rw [stringByte, stringByte, List.getElem?_append_left (by omega)]
    rw [readInt8_byte hpad, readInt8_byte hend, pad_payload, pad_pos, hbyte]
    rfl

theorem readInt8_payload (d : Decoder) : d.readInt8.2.payload = d.payload := by
  rw [readInt8]
  split <;> rfl

theorem readInt8_size (d : Decoder) : d.readInt8.2.size = d.size := by
  rw [readInt8]
  split <;> rfl

theorem le_readInt8_pos (d : Decoder) : d.pos ≤ d.readInt8.2.pos := by
  rw [readInt8]
  split
  · exact le_rfl
  · exact Nat.le_succ d.pos

theorem stringSub_append (tail : LuaString) {start n : Nat} (hstart : 1 ≤ start)
    (hfits : n = 0 ∨ start + n ≤ p.length + 1) :
    stringSub (p ++ tail) start (start + n - 1) = stringSub p start (start + n - 1) := by
  have hcount : start + n - 1 + 1 - start = n := by omega
  rw [stringSub, stringSub, hcount]
  rcases hfits with rfl | hfits
  · rfl
  · have hlength : n ≤ (p.drop (start - 1)).length := by
      rw [List.length_drop]
      omega
    rw [List.drop_append_of_le_length (by omega), List.take_append_of_le_length hlength]

/-- Bytes behind the message are carried along and not looked at. -/
theorem readDomainLoop_pad (tail : LuaString) (d : Decoder) (read : Read Int)
    (hsize : d.size ≤ d.payload.length) (hpos : 1 ≤ d.pos) :
    readDomainLoop fuel (d.pad tail) read domain =
      (readDomainLoop fuel d read domain).map fun r => (r.1, r.2.pad tail) := by
  induction fuel generalizing d read domain with
  | zero => rfl
  | succ fuel ih =>
    obtain ⟨size, err⟩ := read
    rw [readDomainLoop, readDomainLoop]
    by_cases hroot : size = some 0
    · rw [if_pos hroot, if_pos hroot]
      rfl
    rw [if_neg hroot, if_neg hroot]
    by_cases herr : err.isSome
    · rw [if_pos herr, if_pos herr]
      rfl
    rw [if_neg herr, if_neg herr]
    cases size with
    | none => rfl
    | some n =>
      simp only [luaArithmetic, bind, Except.bind]
      by_cases hbound : (d.pos : Int) + n - 1 > d.size
      · rw [if_pos hbound, if_pos (show ((d.pad tail).pos : Int) + n - 1 > (d.pad tail).size from hbound)]
        rfl
      · rw [if_neg hbound,
          if_neg (show ¬((d.pad tail).pos : Int) + n - 1 > (d.pad tail).size from hbound)]
        have hlabel : stringSub (d.payload ++ tail) d.pos (d.pos + n.toNat - 1) =
            stringSub d.payload d.pos (d.pos + n.toNat - 1) := stringSub_append tail hpos (by omega)
        have hnext := readInt8_pad { d with pos := d.pos + n.toNat } tail hsize
          (show 1 ≤ d.pos + n.toNat by omega)
        have hbehind := le_readInt8_pos { d with pos := d.pos + n.toNat }
        rw [pad_payload, pad_pos, hlabel]
        change readDomainLoop fuel (pad { d with pos := d.pos + n.toNat } tail).readInt8.2
          (pad { d with pos := d.pos + n.toNat } tail).readInt8.1 _ = _
        rw [hnext]
        refine ih _ _ _ ?_ ?_
        · rw [readInt8_payload, readInt8_size]
          exact hsize
        · exact le_trans hpos (le_trans (Nat.le_add_right _ _) hbehind)

theorem domainLoop_pad (tail : LuaString) :
    readDomainLoop fuel ((reading p i).pad tail).readInt8.2 ((reading p i).pad tail).readInt8.1 domain =
      (domainLoop fuel p i domain).map fun r => (r.1, r.2.pad tail) := by
  have hpos : 1 ≤ (reading p i).pos := Nat.le_add_left 1 i
  rw [readInt8_pad (reading p i) tail le_rfl hpos]
  refine readDomainLoop_pad domain tail _ _ ?_ (le_trans hpos (le_readInt8_pos _))
  rw [readInt8_payload, readInt8_size]
  exact le_rfl

theorem readDomain_pad (tail : LuaString) (p : LuaString) (i : Nat) :
    ((reading p i).pad tail).readDomain =
      (reading p i).readDomain.map fun r => (r.1, r.2.pad tail) := by
  have hlength : p.length + 1 ≤ (p ++ tail).length + 1 := by
    rw [List.length_append]
    omega
  have hpadded : ((reading p i).pad tail).readDomain =
      (domainLoop ((p ++ tail).length + 1) p i []).map fun r => (r.1, r.2.pad tail) := domainLoop_pad [] tail
  rw [hpadded, domainLoop_fuel [] (Nat.succ_pos _) (show p.length < i + (p.length + 1) by omega) hlength]
  rfl

/-- Whether a name stands there decides between a value and an error. -/
theorem readDomain_cases (p : LuaString) (i : Nat) :
    (∃ labels, EncodedAt p i labels ∧ (reading p i).readDomain =
      .ok ((some (dotted labels), none), reading p (i + (encodeName labels).length))) ∨
    (∀ labels, ¬EncodedAt p i labels) ∧ ∃ err j, (i ≤ p.length → j ≤ p.length) ∧
      (reading p i).readDomain = .ok ((none, some err), reading p j) := by
  have hfuel : p.length < i + (p.length + 1) := by omega
  by_cases h : ∃ labels, EncodedAt p i labels
  · obtain ⟨labels, hname⟩ := h
    exact Or.inl ⟨labels, hname, domainLoop_encoded [] hname hfuel⟩
  · have hnone : ∀ labels, ¬EncodedAt p i labels := fun labels hname => h ⟨labels, hname⟩
    obtain ⟨err, j, hloop, hj⟩ := domainLoop_unencoded [] hnone (Nat.succ_pos _) hfuel
    exact Or.inr ⟨hnone, err, j, hj, hloop⟩

end Decoder

/-- Reading a name ends with any fuel that is larger than the message, stays inside the message,
does not depend on what stands behind it, and finds exactly the names that are there in full. -/
theorem readDomain_reads_names (p : LuaString) (pos : Nat) (hpos : 1 ≤ pos) (hle : pos ≤ p.length + 1) :
    (∃ r, (Decoder.mk p p.length pos).readDomain = .ok r ∧
      r.2.payload = p ∧ r.2.size = p.length ∧ r.2.pos ≤ p.length + 1 ∧
      (∀ fuel, p.length < fuel → Decoder.readDomainLoop fuel (Decoder.mk p p.length pos).readInt8.2
        (Decoder.mk p p.length pos).readInt8.1 [] = .ok r) ∧
      ∀ tail, (Decoder.mk (p ++ tail) p.length pos).readDomain = .ok (r.1, r.2.pad tail)) ∧
    (∀ labels rest, (∀ label ∈ labels, 1 ≤ label.length ∧ label.length ≤ 255) →
      p.drop (pos - 1) = encodeName labels ++ rest →
        (Decoder.mk p p.length pos).readDomain =
          .ok ((some (dotted labels), none), ⟨p, p.length, pos + (encodeName labels).length⟩)) ∧
    ((¬∃ labels rest, (∀ label ∈ labels, 1 ≤ label.length ∧ label.length ≤ 255) ∧
        p.drop (pos - 1) = encodeName labels ++ rest) →
      ∃ err d, (Decoder.mk p p.length pos).readDomain = .ok ((none, some err), d)) := by
  obtain ⟨i, rfl⟩ : ∃ i, pos = i + 1 := ⟨pos - 1, by omega⟩
  have hi : i ≤ p.length := by omega
  have hfuel : p.length < i + (p.length + 1) := by omega
  refine ⟨?_, ?_, ?_⟩
  · obtain ⟨r, j, hr, hrj, hj⟩ : ∃ r j, (Decoder.reading p i).readDomain = .ok r ∧
        r.2 = Decoder.reading p j ∧ j ≤ p.length := by
      rcases Decoder.readDomain_cases p i with ⟨labels, hname, hread⟩ | ⟨-, err, j, hj, hread⟩
      · exact ⟨_, _, hread, rfl, hname.end_le⟩
      · exact ⟨_, j, hread, rfl, hj hi⟩
    refine ⟨r, hr, by rw [hrj]; rfl, by rw [hrj]; rfl, by rw [hrj]; exact Nat.succ_le_succ hj, ?_, ?_⟩
    · intro fuel hmore
      rw [← hr]
      exact Decoder.domainLoop_fuel [] (Nat.succ_pos _) hfuel hmore
    · intro tail
      have hpad := Decoder.readDomain_pad tail p i
      rw [hr] at hpad
      exact hpad
  · intro labels rest hlabels hbytes
    have hname : EncodedAt p i labels := ⟨hlabels, rest, hbytes.symm⟩
    have hread := Decoder.domainLoop_encoded [] hname hfuel
    rw [Decoder.reading, show i + (encodeName labels).length + 1 = i + 1 +
      (encodeName labels).length by omega]
      at hread
    exact hread
  · intro hnone
    rcases Decoder.readDomain_cases p i with ⟨labels, ⟨hlabels, rest, hbytes⟩, -⟩ | ⟨-, err, j, -, hread⟩
    · exact absurd ⟨labels, rest, hlabels, hbytes.symm⟩ hnone
    · exact ⟨err, _, hread⟩

theorem readDomain_reads_names_labels :
    (Decoder.mk [2, 97, 98, 1, 99, 0, 7] 7 1).readDomain =
        .ok ((some (dotted [[97, 98], [99]]), none), ⟨[2, 97, 98, 1, 99, 0, 7], 7, 7⟩) ∧
      (Decoder.mk [2, 97, 98, 1, 99, 0, 7] 7 7).readDomain.map Prod.fst =
        .ok (none, some "size is out of bound") := by
  refine ⟨(readDomain_reads_names [2, 97, 98, 1, 99, 0, 7] 1 (by decide) (by decide)).2.1
    [[97, 98], [99]] [7] (by decide) rfl, rfl⟩

end Tcpkit
