import Tcpkit.Lua
import Tcpkit.Trace

/-! What the decoder of `dns.lua` reads. The names and the questions of a message are
given by a grammar over its bytes, and the script returns exactly on the queries that
follow it. -/

namespace Tcpkit

/-- A domain name that starts at `i` and ends before `j`. -/
inductive NameAt (p : LuaString) : Nat → Nat → Prop where
  | root {i : Nat} : i < p.length → byte p i = 0 → NameAt p i (i + 1)
  | label {i j : Nat} : i < p.length → byte p i ≠ 0 → i + 1 + (byte p i).toNat ≤ p.length →
      NameAt p (i + 1 + (byte p i).toNat) j → NameAt p i j

/-- `n` questions from `i` on: a name, a type and a class each. The class of the last one may
be missing. -/
inductive Questions (p : LuaString) : Nat → Nat → Prop where
  | nil {i : Nat} : Questions p 0 i
  | cons {n i j : Nat} : NameAt p i j → j + 2 ≤ p.length → Questions p n (j + 4) →
      Questions p (n + 1) i

variable {p : LuaString} {i j n : Nat}

theorem NameAt.lt (h : NameAt p i j) : i < j := by
  induction h with
  | root => omega
  | label _ _ _ _ ih => omega

theorem NameAt.start_lt (h : NameAt p i j) : i < p.length := by
  cases h <;> assumption

theorem NameAt.rest (h : NameAt p i j) (h0 : byte p i ≠ 0) :
    i + 1 + (byte p i).toNat ≤ p.length ∧ NameAt p (i + 1 + (byte p i).toNat) j := by
  cases h with
  | root _ hroot => exact absurd hroot h0
  | label _ _ hfits hrest => exact ⟨hfits, hrest⟩

theorem NameAt.unique {k : Nat} (hj : NameAt p i j) (hk : NameAt p i k) : j = k := by
  induction hj with
  | root _ h0 =>
    cases hk with
    | root => rfl
    | label _ hne => exact absurd h0 hne
  | label _ hne _ _ ih => exact ih (hk.rest hne).2

theorem Questions.room (h : Questions p (n + 1) i) : i + 3 ≤ p.length := by
  cases h with
  | cons hname htype _ =>
    have := hname.lt
    omega

namespace Decoder

def reading (p : LuaString) (i : Nat) : Decoder := ⟨p, p.length, i + 1⟩

theorem readInt8_of_lt (h : i < p.length) :
    (reading p i).readInt8 = ((some ((byte p i).toNat : Int), none), reading p (i + 1)) := by
  have hpos : ¬((reading p i).pos : Int) > (reading p i).size := by
    show ¬((i + 1 : Nat) : Int) > p.length
    omega
  rw [readInt8, if_neg hpos]
  simp [reading, stringByte, getElem?_eq_byte h]

theorem readInt8_of_ge (h : p.length ≤ i) :
    (reading p i).readInt8 = ((none, some "Read out of bound."), reading p i) := by
  have hpos : ((reading p i).pos : Int) > (reading p i).size := by
    show ((i + 1 : Nat) : Int) > p.length
    omega
  rw [readInt8, if_pos hpos]

theorem toNat_be16 : ((be16 p i).toNat : Int) = 256 * (byte p i).toNat + (byte p (i + 1)).toNat := by
  have h0 := (byte p i).toNat_lt
  have h1 := (byte p (i + 1)).toNat_lt
  rw [be16, UInt16.toNat_ofNat_of_lt' (by rw [UInt16.size]; omega)]
  omega

theorem bit32Lshift_byte (c : UInt8) : bit32Lshift (some (c.toNat : Int)) 8 = .ok (256 * c.toNat : Int) := by
  have hc := c.toNat_lt
  have hof : bit32Of c.toNat = c.toNat := by
    rw [bit32Of]
    omega
  simp only [bit32Lshift, luaCheckNumber, Except.map, hof, Nat.shiftLeft_eq]
  congr 1
  omega

theorem readInt16_of_le (h : i + 2 ≤ p.length) :
    (reading p i).readInt16 = .ok ((some ((be16 p i).toNat : Int), none), reading p (i + 2)) := by
  have hpos : ¬((reading p i).pos + 1 : Int) > (reading p i).size := by
    show ¬((i + 1 : Nat) + 1 : Int) > p.length
    omega
  have hfirst : stringByte (reading p i).payload (reading p i).pos = some ((byte p i).toNat : Int) := by
    simp [reading, stringByte, getElem?_eq_byte (show i < p.length by omega)]
  have hsecond : stringByte (reading p i).payload ((reading p i).pos + 1) =
      some ((byte p (i + 1)).toNat : Int) := by
    simp [reading, stringByte, getElem?_eq_byte (show i + 1 < p.length by omega)]
  rw [readInt16, if_neg hpos, hfirst, hsecond, bit32Lshift_byte, toNat_be16]
  rfl

theorem readInt16_of_gt (h : p.length < i + 2) :
    (reading p i).readInt16 = .ok ((none, some "Read out of bound."), reading p i) := by
  have hpos : ((reading p i).pos + 1 : Int) > (reading p i).size := by
    show ((i + 1 : Nat) + 1 : Int) > p.length
    omega
  rw [readInt16, if_pos hpos]

section Passes

variable {fuel : Nat} (domain : LuaString)

def domainLoop (fuel : Nat) (p : LuaString) (i : Nat) (domain : LuaString) :
    Except LuaError (Read LuaString × Decoder) :=
  readDomainLoop fuel (reading p i).readInt8.2 (reading p i).readInt8.1 domain

theorem domainLoop_root (hi : i < p.length) (h0 : byte p i = 0) :
    domainLoop (fuel + 1) p i domain = .ok ((some domain, none), reading p (i + 1)) := by
  rw [domainLoop, readInt8_of_lt hi, h0]
  rfl

theorem domainLoop_end (hi : p.length ≤ i) :
    domainLoop (fuel + 1) p i domain = .ok ((none, some "Read out of bound."), reading p i) := by
  rw [domainLoop, readInt8_of_ge hi]
  rfl

theorem domainLoop_size (hi : i < p.length) (h0 : byte p i ≠ 0) :
    domainLoop (fuel + 1) p i domain =
      if ((i + 2 : Nat) : Int) + (byte p i).toNat - 1 > p.length then
        .ok ((none, some "size is out of bound"), reading p (i + 1))
      else domainLoop fuel p (i + 1 + (byte p i).toNat)
        (domain ++ stringSub p (i + 2) (i + 2 + (byte p i).toNat - 1) ++ luaLiteral ".") := by
  have hne : (byte p i).toNat ≠ 0 := fun h => h0 (UInt8.toNat_inj.mp h)
  have hsize : some ((byte p i).toNat : Int) ≠ some 0 := by simpa using hne
  have hnext : { reading p (i + 1) with pos := (reading p (i + 1)).pos + (byte p i).toNat } =
      reading p (i + 1 + (byte p i).toNat) := by
    simp only [reading, Decoder.mk.injEq, true_and]
    omega
  rw [domainLoop, readInt8_of_lt hi, readDomainLoop, if_neg hsize]
  simp only [Option.isSome_none, Bool.false_eq_true, if_false, luaArithmetic, bind, Except.bind,
    Int.toNat_natCast, hnext]
  rfl

end Passes

/-- Enough fuel reads the name if there is one, and no value otherwise. -/
theorem domainLoop_reads (fuel : Nat) (hfuel : p.length < i + fuel) (domain : LuaString) :
    ∃ r, domainLoop fuel p i domain = .ok r ∧
      ((∃ j text, NameAt p i j ∧ r = ((some text, none), reading p j)) ∨
        (∀ j, ¬NameAt p i j) ∧ r.1.1 = none) := by
  induction fuel generalizing i domain with
  | zero => exact ⟨_, rfl, Or.inr ⟨fun j hname => absurd hname.start_lt (by omega), rfl⟩⟩
  | succ fuel ih =>
    by_cases hi : i < p.length
    · by_cases h0 : byte p i = 0
      · exact ⟨_, domainLoop_root domain hi h0, Or.inl ⟨i + 1, domain, .root hi h0, rfl⟩⟩
      · rw [domainLoop_size domain hi h0]
        by_cases hfits : i + 1 + (byte p i).toNat ≤ p.length
        · -- The next pass starts behind the label.
          rw [if_neg (by omega)]
          obtain ⟨r, hr, hcases⟩ := ih (i := i + 1 + (byte p i).toNat) (by omega)
            (domain ++ stringSub p (i + 2) (i + 2 + (byte p i).toNat - 1) ++ luaLiteral ".")
          refine ⟨r, hr, ?_⟩
          rcases hcases with ⟨j, text, hname, hr'⟩ | ⟨hno, hr'⟩
          · exact Or.inl ⟨j, text, .label hi h0 hfits hname, hr'⟩
          · exact Or.inr ⟨fun j hname => hno j (hname.rest h0).2, hr'⟩
        · rw [if_pos (by omega)]
          exact ⟨_, rfl, Or.inr ⟨fun j hname => hfits (hname.rest h0).1, rfl⟩⟩
    · rw [domainLoop_end domain (by omega)]
      exact ⟨_, rfl, Or.inr ⟨fun j hname => hi hname.start_lt, rfl⟩⟩

theorem readDomain_reads (p : LuaString) (i : Nat) :
    ∃ r, (reading p i).readDomain = .ok r ∧
      ((∃ j text, NameAt p i j ∧ r = ((some text, none), reading p j)) ∨
        (∀ j, ¬NameAt p i j) ∧ r.1.1 = none) :=
  domainLoop_reads (p.length + 1) (by omega) []

end Decoder

theorem luaConcat_ok_iff (xs : List (Option LuaString)) :
    (∃ s, luaConcat xs = .ok s) ↔ ∀ x ∈ xs, x.isSome := by
  induction xs with
  | nil => simp [luaConcat]
  | cons x xs ih =>
    cases x with
    | none => simp [luaConcat]
    | some t =>
      rw [List.forall_mem_cons, ← ih, luaConcat]
      cases luaConcat xs with
      | error e => simp [Except.map]
      | ok s => simp [Except.map]

/-- One question: it raises without a name or a type, and a missing class leaves the decoder
where it is. -/
theorem questionLoop_succ (n : Nat) (p : LuaString) (i : Nat) (domains : LuaString) :
    (∃ j next, NameAt p i j ∧ j + 2 ≤ p.length ∧ questionLoop (n + 1) (Decoder.reading p i) domains =
        questionLoop n (Decoder.reading p (if j + 4 ≤ p.length then j + 4 else j + 2)) next) ∨
      (∀ j, NameAt p i j → p.length < j + 2) ∧
        ∃ e, questionLoop (n + 1) (Decoder.reading p i) domains = .error e := by
  obtain ⟨⟨⟨value, err⟩, d⟩, hr, ⟨j, text, hname, heq⟩ | ⟨hno, hnone⟩⟩ := Decoder.readDomain_reads p i
  · obtain ⟨⟨rfl, rfl⟩, rfl⟩ := by simpa using heq
    by_cases htype : j + 2 ≤ p.length
    · left
      obtain ⟨next, hnext⟩ := (luaConcat_ok_iff [some domains, some (luaLiteral " "), some text,
        some (luaLiteral " | "), ((qtypeMap (some ((be16 p j).toNat : Int))).map luaLiteral).or
          (some (luaText (be16 p j).toNat))]).mpr (by simp)
      refine ⟨j, next, hname, htype, ?_⟩
      by_cases hclass : j + 4 ≤ p.length
      · simp only [questionLoop, hr, Decoder.readInt16_of_le htype,
          Decoder.readInt16_of_le (show j + 2 + 2 ≤ p.length from hclass), bind, Except.bind,
          Option.map_some, hnext, if_pos hclass]
      · simp only [questionLoop, hr, Decoder.readInt16_of_le htype,
          Decoder.readInt16_of_gt (show p.length < j + 2 + 2 by omega), bind, Except.bind,
          Option.map_some, hnext, if_neg hclass]
    · right
      refine ⟨fun k hk => by rw [← hname.unique hk]; omega, ?_⟩
      simp [questionLoop, hr, Decoder.readInt16_of_gt (show p.length < j + 2 by omega), bind,
        Except.bind, qtypeMap, luaConcat, Except.map]
  · right
    refine ⟨fun j hj => absurd hj (hno j), ?_⟩
    cases hrun : questionLoop (n + 1) (Decoder.reading p i) domains with
    | error e => exact ⟨e, rfl⟩
    | ok last =>
      rw [questionLoop, hr] at hrun
      obtain ⟨domain, hdomain, hrun⟩ := bind_eq_ok hrun
      cases hdomain
      obtain ⟨qtype, -, hrun⟩ := bind_eq_ok hrun
      obtain ⟨qclass, -, hrun⟩ := bind_eq_ok hrun
      obtain ⟨next, hconcat, -⟩ := bind_eq_ok hrun
      have hsome := (luaConcat_ok_iff _).mp ⟨next, hconcat⟩ value (by simp)
      rw [show value = none from hnone] at hsome
      cases hsome

theorem questionLoop_ok_iff (n : Nat) (p : LuaString) (i : Nat) (domains : LuaString) :
    (∃ s, questionLoop n (Decoder.reading p i) domains = .ok s) ↔ Questions p n i := by
  induction n generalizing i domains with
  | zero => exact ⟨fun _ => .nil, fun _ => ⟨domains, rfl⟩⟩
  | succ n ih =>
    rcases questionLoop_succ n p i domains with ⟨j, next, hname, htype, heq⟩ | ⟨hno, e, heq⟩
    · rw [heq, ih]
      constructor
      · intro hrest
        refine .cons hname htype ?_
        by_cases hclass : j + 4 ≤ p.length
        · rwa [if_pos hclass] at hrest
        · rw [if_neg hclass] at hrest
          cases n with
          | zero => exact .nil
          | succ n => exact absurd hrest.room (by omega)
      · intro hall
        cases hall with
        | cons hname' _ hrest =>
          rw [hname'.unique hname] at hrest
          split
          · exact hrest
          · cases n with
            | zero => exact .nil
            | succ n => exact absurd hrest.room (by omega)
    · rw [heq]
      constructor
      · rintro ⟨s, hs⟩
        cases hs
      · intro hall
        cases hall with
        | cons hname htype _ => exact absurd (hno _ hname) (by omega)

end Tcpkit
