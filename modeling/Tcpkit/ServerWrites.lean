import Tcpkit.CString

/-! How the stats thread sends its JSON text to a client: the loop of `write_all` over whatever
`write` does on the socket, and the signals that `main` takes care of. -/

namespace Tcpkit

inductive SignalNumber where
  | sigint
  | sigterm
  | sigpipe
  deriving DecidableEq

inductive Disposition where
  | default
  | ignored
  | handler
  deriving DecidableEq

/-- Across `execve` an ignored signal stays ignored and every other one is reset. -/
def atExec (ignored : SignalNumber → Bool) (sig : SignalNumber) : Disposition :=
  if ignored sig then .ignored else .default

def signal (dispositions : SignalNumber → Disposition) (sig : SignalNumber) (func : Disposition) :
    SignalNumber → Disposition :=
  Function.update dispositions sig func

def mainSignals (ignored : SignalNumber → Bool) : SignalNumber → Disposition :=
  signal (signal (atExec ignored) .sigint .handler) .sigterm .handler

theorem mainSignals_sigpipe (ignored : SignalNumber → Bool) :
    mainSignals ignored .sigpipe = .default ↔ ignored .sigpipe = false := by
  simp [mainSignals, signal, atExec]

def eintr : Int := 4
def epipe : Int := 32

/-- What comes of one `write`: the socket takes up to `n` bytes, a signal interrupts the call
first, the peer has closed, or the call fails for another reason. -/
inductive WriteOutcome where
  | wrote (n : Nat) (pos : 0 < n)
  | interrupted
  | closed
  | failed (errno : Int) (other : errno ≠ eintr)

/-- The value of `write` and `errno` after it, or `none` where the process ends in the call. -/
def write (dispositions : SignalNumber → Disposition) (nbyte : Nat) : WriteOutcome → Option (Int × Int)
  | .wrote n _ => some (min n nbyte, 0)
  | .interrupted => some (-1, eintr)
  | .closed => if dispositions .sigpipe = .default then none else some (-1, epipe)
  | .failed errno _ => some (-1, errno)

/-- Where `write_all` stands: in a call that nothing is known of yet, back in the server loop, or
gone with the process. -/
inductive Fate where
  | writing
  | returned
  | killed
  deriving DecidableEq

structure Delivery where
  sent : List UInt8
  fate : Fate
  deriving DecidableEq

def writeAll (dispositions : SignalNumber → Disposition) (buf : List UInt8) (off : Nat) :
    List WriteOutcome → Delivery
  | [] => ⟨[], if off < buf.length then .writing else .returned⟩
  | outcome :: outcomes =>
    if off < buf.length then
      match write dispositions (buf.length - off) outcome with
      | none => ⟨[], .killed⟩
      | some (n, errno) =>
        if 0 < n then
          let rest := writeAll dispositions buf (off + n.toNat) outcomes
          ⟨(buf.drop off).take n.toNat ++ rest.sent, rest.fate⟩
        else if n < 0 ∧ errno = eintr then
          writeAll dispositions buf off outcomes
        else
          ⟨[], .returned⟩
    else
      ⟨[], .returned⟩

namespace WriteOutcome

def taken : WriteOutcome → Nat
  | wrote n _ => n
  | _ => 0

def Goes : WriteOutcome → Prop
  | wrote _ _ | interrupted => True
  | closed | failed _ _ => False

def isInterrupt : WriteOutcome → Bool
  | interrupted => true
  | _ => false

end WriteOutcome

/-- The peer closes while bytes remain of a text of that length, and nothing went wrong before. -/
def ClosesEarly (length : Nat) (outcomes : List WriteOutcome) : Prop :=
  ∃ before after, outcomes = before ++ .closed :: after ∧ (∀ o ∈ before, o.Goes) ∧
    (before.map WriteOutcome.taken).sum < length

namespace ClosesEarly

variable {length n : Nat} {outcomes : List WriteOutcome}

theorem closed_cons : ClosesEarly length (.closed :: outcomes) ↔ 0 < length := by
  constructor
  · rintro ⟨before, after, -, -, hsum⟩
    exact Nat.zero_lt_of_lt hsum
  · exact fun h => ⟨[], outcomes, rfl, by simp, h⟩

theorem cons_of_goes {o : WriteOutcome} (ho : o.Goes) :
    ClosesEarly length (o :: outcomes) ↔ ClosesEarly (length - o.taken) outcomes := by
  constructor
  · rintro ⟨_ | ⟨x, before⟩, after, hsplit, hgo, hsum⟩
    · obtain ⟨rfl, rfl⟩ := List.cons.inj hsplit
      exact absurd ho not_false
    · obtain ⟨rfl, rfl⟩ := List.cons.inj hsplit
      rw [List.map_cons, List.sum_cons] at hsum
      exact ⟨before, after, rfl, fun y hy => hgo y (List.mem_cons_of_mem _ hy), by omega⟩
  · rintro ⟨before, after, rfl, hgo, hsum⟩
    refine ⟨o :: before, after, rfl, List.forall_mem_cons.mpr ⟨ho, hgo⟩, ?_⟩
    rw [List.map_cons, List.sum_cons]
    omega

theorem not_failed_cons {errno : Int} {other : errno ≠ eintr} :
    ¬ClosesEarly length (.failed errno other :: outcomes) := by
  rintro ⟨_ | ⟨x, before⟩, after, hsplit, hgo, -⟩
  · cases hsplit
  · obtain ⟨rfl, -⟩ := List.cons.inj hsplit
    exact hgo _ List.mem_cons_self

end ClosesEarly

section Loop

variable {dispositions : SignalNumber → Disposition} {buf : List UInt8} {off : Nat}
  {outcomes : List WriteOutcome}

theorem writeAll_done (h : buf.length ≤ off) :
    writeAll dispositions buf off outcomes = ⟨[], .returned⟩ := by
  cases outcomes with
  | nil => rw [writeAll, if_neg (not_lt.mpr h)]
  | cons outcome outcomes => rw [writeAll, if_neg (not_lt.mpr h)]

theorem writeAll_wrote {n : Nat} {pos : 0 < n} (h : off < buf.length) :
    writeAll dispositions buf off (.wrote n pos :: outcomes) =
      ⟨(buf.drop off).take n ++ (writeAll dispositions buf (off + min n (buf.length - off)) outcomes).sent,
        (writeAll dispositions buf (off + min n (buf.length - off)) outcomes).fate⟩ := by
  have hpos : (0 : Int) < ((min n (buf.length - off) : Nat) : Int) := by omega
  have htake : (buf.drop off).take (min n (buf.length - off)) = (buf.drop off).take n := by
    rw [← List.length_drop, List.take_eq_take_iff]
    omega
  simp only [writeAll, write, if_pos h]
  rw [← Nat.cast_min, if_pos hpos, Int.toNat_natCast, htake]

theorem writeAll_interrupted (h : off < buf.length) :
    writeAll dispositions buf off (.interrupted :: outcomes) = writeAll dispositions buf off outcomes := by
  simp [writeAll, write, h]

theorem writeAll_closed (h : off < buf.length) :
    writeAll dispositions buf off (.closed :: outcomes) =
      ⟨[], if dispositions .sigpipe = .default then .killed else .returned⟩ := by
  by_cases hd : dispositions .sigpipe = .default
  · simp [writeAll, write, h, hd]
  · simp [writeAll, write, h, hd, epipe, eintr]

theorem writeAll_failed {errno : Int} {other : errno ≠ eintr} (h : off < buf.length) :
    writeAll dispositions buf off (.failed errno other :: outcomes) = ⟨[], .returned⟩ := by
  simp [writeAll, write, h, other]

/-- One pass of the loop for each outcome, until the text is sent or a call ends it. -/
theorem writeAll_induct {motive : Nat → List WriteOutcome → Delivery → Prop}
    (done : ∀ off outcomes, buf.length ≤ off → motive off outcomes ⟨[], .returned⟩)
    (waiting : ∀ off, off < buf.length → motive off [] ⟨[], .writing⟩)
    (wrote : ∀ off n pos outcomes r, off < buf.length →
      motive (off + min n (buf.length - off)) outcomes r →
      motive off (.wrote n pos :: outcomes) ⟨(buf.drop off).take n ++ r.sent, r.fate⟩)
    (interrupted : ∀ off outcomes r, off < buf.length → motive off outcomes r →
      motive off (.interrupted :: outcomes) r)
    (closed : ∀ off outcomes, off < buf.length → motive off (.closed :: outcomes)
      ⟨[], if dispositions .sigpipe = .default then .killed else .returned⟩)
    (failed : ∀ off errno other outcomes, off < buf.length →
      motive off (.failed errno other :: outcomes) ⟨[], .returned⟩)
    (off : Nat) (outcomes : List WriteOutcome) :
    motive off outcomes (writeAll dispositions buf off outcomes) := by
  induction outcomes generalizing off with
  | nil =>
    by_cases h : off < buf.length
    · rw [writeAll, if_pos h]
      exact waiting off h
    · rw [writeAll_done (not_lt.mp h)]
      exact done off [] (not_lt.mp h)
  | cons outcome outcomes ih =>
    by_cases h : off < buf.length
    · cases outcome with
      | wrote n pos =>
        rw [writeAll_wrote h]
        exact wrote off n pos outcomes _ h (ih _)
      | interrupted =>
        rw [writeAll_interrupted h]
        exact interrupted off outcomes _ h (ih off)
      | closed =>
        rw [writeAll_closed h]
        exact closed off outcomes h
      | failed errno other =>
        rw [writeAll_failed h]
        exact failed off errno other outcomes h
    · rw [writeAll_done (not_lt.mp h)]
      exact done off _ (not_lt.mp h)

theorem take_append_drop_min (buf : List UInt8) (off n : Nat) :
    (buf.drop off).take n ++ buf.drop (off + min n (buf.length - off)) = buf.drop off := by
  by_cases hn : n ≤ buf.length - off
  · rw [min_eq_left hn, ← List.drop_drop, List.take_append_drop]
  · have hlast : buf.length ≤ off + min n (buf.length - off) := by omega
    rw [List.drop_of_length_le hlast, List.append_nil]
    exact List.take_of_length_le (by rw [List.length_drop]; omega)

theorem writeAll_sent_in_order (dispositions : SignalNumber → Disposition) (buf : List UInt8) (off : Nat)
    (outcomes : List WriteOutcome) : (writeAll dispositions buf off outcomes).sent <+: buf.drop off := by
  induction off, outcomes using writeAll_induct with
  | done => exact List.nil_prefix
  | waiting => exact List.nil_prefix
  | wrote off n pos outcomes r h ih =>
    obtain ⟨left, hleft⟩ := ih
    exact ⟨left, by rw [List.append_assoc, hleft, take_append_drop_min]⟩
  | interrupted off outcomes r h ih => exact ih
  | closed => exact List.nil_prefix
  | failed => exact List.nil_prefix

theorem writeAll_sent_all (hgo : ∀ o ∈ outcomes, o.Goes)
    (hret : (writeAll dispositions buf off outcomes).fate = .returned) :
    (writeAll dispositions buf off outcomes).sent = buf.drop off := by
  induction off, outcomes using writeAll_induct with
  | done off outcomes h => rw [List.drop_of_length_le h]
  | waiting => cases hret
  | wrote off n pos outcomes r h ih =>
    rw [ih (fun o ho => hgo o (List.mem_cons_of_mem _ ho)) hret, take_append_drop_min]
  | interrupted off outcomes r h ih =>
    exact ih (fun o ho => hgo o (List.mem_cons_of_mem _ ho)) hret
  | closed => exact absurd (hgo .closed List.mem_cons_self) not_false
  | failed off errno other => exact absurd (hgo (.failed errno other) List.mem_cons_self) not_false

/-- Every call that is not interrupted sends a byte or ends the loop. -/
theorem writeAll_calls (hwriting : (writeAll dispositions buf off outcomes).fate = .writing) :
    outcomes.countP (fun o => !o.isInterrupt) < buf.length - off := by
  induction off, outcomes using writeAll_induct with
  | done => cases hwriting
  | waiting off h => exact Nat.sub_pos_of_lt h
  | wrote off n pos outcomes r h ih =>
    have hrest := ih hwriting
    rw [List.countP_cons_of_pos rfl]
    omega
  | interrupted off outcomes r h ih =>
    rw [List.countP_cons_of_neg (by simp [WriteOutcome.isInterrupt])]
    exact ih hwriting
  | closed =>
    dsimp only at hwriting
    split at hwriting <;> cases hwriting
  | failed => cases hwriting

theorem writeAll_killed_iff (dispositions : SignalNumber → Disposition) (buf : List UInt8) (off : Nat)
    (outcomes : List WriteOutcome) :
    (writeAll dispositions buf off outcomes).fate = .killed ↔
      dispositions .sigpipe = .default ∧ ClosesEarly (buf.length - off) outcomes := by
  induction off, outcomes using writeAll_induct with
  | done off outcomes h =>
    rw [Nat.sub_eq_zero_of_le h]
    simp [ClosesEarly]
  | waiting off h => simp [ClosesEarly]
  | wrote off n pos outcomes r h ih =>
    have hleft : buf.length - (off + min n (buf.length - off)) = buf.length - off - n := by omega
    rw [ih, hleft, ClosesEarly.cons_of_goes (o := .wrote n pos) trivial]
    rfl
  | interrupted off outcomes r h ih =>
    rw [ih, ClosesEarly.cons_of_goes (o := .interrupted) trivial]
    rfl
  | closed off outcomes h =>
    have hlt := Nat.sub_pos_of_lt h
    by_cases hd : dispositions .sigpipe = .default
    · simp [hd, ClosesEarly.closed_cons, hlt]
    · simp [hd]
  | failed off errno other outcomes =>
    exact iff_of_false (by simp) fun h => ClosesEarly.not_failed_cons h.2

end Loop

/-- What a client is promised of `write_all`: the text in order without gap or repetition, all of
it where nothing goes wrong, and the server loop running on. The loop waits for one more outcome
only while it has had fewer than the text has bytes, interruptions not counted. -/
structure Serves (text : CString) (outcomes : List WriteOutcome) (r : Delivery) : Prop where
  inOrder : r.sent <+: text.bytes
  whole : (∀ o ∈ outcomes, o.Goes) → r.fate = .returned → r.sent = text.bytes
  returns : r.fate = .returned ∨
    r.fate = .writing ∧ outcomes.countP (fun o => !o.isInterrupt) < text.strlen

/-- The promise is kept exactly where `SIGPIPE` was ignored from the start or the client does not
close before it has got the text. -/
theorem writeAll_serves_iff (ignored : SignalNumber → Bool) (text : CString) (outcomes : List WriteOutcome) :
    Serves text outcomes (writeAll (mainSignals ignored) text.bytes 0 outcomes) ↔
      ignored .sigpipe = true ∨ ¬ClosesEarly text.strlen outcomes := by
  have hkilled := writeAll_killed_iff (mainSignals ignored) text.bytes 0 outcomes
  rw [mainSignals_sigpipe] at hkilled
  constructor
  · intro h
    by_contra hno
    rw [not_or, Bool.not_eq_true, not_not] at hno
    have hfate := hkilled.mpr hno
    rcases h.returns with hret | ⟨hwriting, -⟩
    · rw [hret] at hfate
      cases hfate
    · rw [hwriting] at hfate
      cases hfate
  · intro hsafe
    refine ⟨writeAll_sent_in_order _ _ 0 _, fun hgo hret => writeAll_sent_all hgo hret, ?_⟩
    cases hfate : (writeAll (mainSignals ignored) text.bytes 0 outcomes).fate with
    | returned => exact .inl rfl
    | writing => exact .inr ⟨rfl, writeAll_calls hfate⟩
    | killed =>
      obtain ⟨hignored, hcloses⟩ := hkilled.mp hfate
      rw [hignored] at hsafe
      exact absurd hcloses (hsafe.resolve_left Bool.false_ne_true)

theorem writeAll_kills :
    ¬Serves (CString.literal "\x7b\x7d") [.closed]
      (writeAll (mainSignals fun _ => false) (CString.literal "\x7b\x7d").bytes 0 [.closed]) := by
  have hlong : 0 < (CString.literal "\x7b\x7d").bytes.length := by decide +kernel
  rw [writeAll_closed hlong, if_pos ((mainSignals_sigpipe _).mpr rfl)]
  intro h
  rcases h.returns with hret | ⟨hwriting, -⟩
  · cases hret
  · cases hwriting

end Tcpkit
