import Tcpkit.CString
import Tcpkit.Summary

/-! Redis commands in the RESP array encoding, and what `format_redis` prints of
them. It counts CR LF segments and never reads the declared lengths. -/

namespace Tcpkit

open Segments

def bulkString (arg : List UInt8) : List UInt8 :=
  (0x24 :: (CString.decimal arg.length).bytes) ++ 0x0d :: 0x0a :: (arg ++ [0x0d, 0x0a])

def respArray (args : List (List UInt8)) : List UInt8 :=
  (0x2a :: (CString.decimal args.length).bytes) ++ 0x0d :: 0x0a :: args.flatMap bulkString

/-- The first 127 bytes of the arguments joined by single spaces. -/
def commandLine (args : List (List UInt8)) : List UInt8 :=
  (sanitize ([0x20].intercalate args)).take 127

/-- `format_redis` prints the given arguments of the payload and no framing. -/
def PrintsArguments (payload : List UInt8) (args : List (List UInt8)) : Prop :=
  formatRedis true payload payload.length = some (some (commandLine args))

instance (payload : List UInt8) (args : List (List UInt8)) : Decidable (PrintsArguments payload args) :=
  inferInstanceAs (Decidable (_ = _))

/-- Where in the joined line the first CR LF inside an argument begins. -/
def crlfOffset : List (List UInt8) → Option Nat
  | [] => none
  | arg :: args =>
    match cut 0x0d 0x0a arg with
    | some (before, _) => some before.length
    | none => (crlfOffset args).map (fun n => arg.length + 1 + n)

theorem header_noCrlf {c : UInt8} (hc : c ≠ 0x0d) (n : Nat) :
    ¬ [0x0d, 0x0a] <:+: c :: (CString.decimal n).bytes := by
  intro h
  have hm : (0x0d : UInt8) ∈ c :: (CString.decimal n).bytes := h.subset (by simp)
  rcases List.mem_cons.mp hm with hm | hm
  · exact hc hm.symm
  · have := (CString.toNat_of_mem_decimal hm).1
    revert this
    decide

theorem crlfSegments_bulkString (arg rest : List UInt8) :
    crlfSegments (bulkString arg ++ rest) =
      (0x24 :: (CString.decimal arg.length).bytes) ::
        crlfSegments (arg ++ 0x0d :: 0x0a :: rest) := by
  rw [bulkString, List.append_assoc]
  simp only [List.cons_append, List.append_assoc, List.nil_append]
  exact segments_append (by decide) (header_noCrlf (by decide) _) _

theorem crlfSegments_respArray (args : List (List UInt8)) (rest : List UInt8) :
    crlfSegments (respArray args ++ rest) =
      (0x2a :: (CString.decimal args.length).bytes) ::
        crlfSegments (args.flatMap bulkString ++ rest) := by
  rw [respArray, List.append_assoc]
  simp only [List.cons_append]
  exact segments_append (by decide) (header_noCrlf (by decide) _) _

theorem isArgument_of_odd {i : Nat} (hi : i % 2 = 1) : isArgument i = false := by
  simp [isArgument, hi]

theorem isArgument_succ_of_odd {i : Nat} (hi : i % 2 = 1) : isArgument (i + 1) = true := by
  simp only [isArgument, decide_eq_true_eq]
  omega

theorem pick_bulkString {i : Nat} (hi : i % 2 = 1) (arg rest : List UInt8) :
    pick isArgument i (crlfSegments (bulkString arg ++ rest)) =
      pick isArgument (i + 1) (crlfSegments (arg ++ 0x0d :: 0x0a :: rest)) := by
  rw [crlfSegments_bulkString, pick, isArgument_of_odd hi, if_neg (by simp)]

theorem pick_arguments {args : List (List UInt8)} (hargs : ∀ arg ∈ args, ¬ [0x0d, 0x0a] <:+: arg)
    (rest : List UInt8) {i : Nat} (hi : i % 2 = 1) :
    pick isArgument i (crlfSegments (args.flatMap bulkString ++ rest)) =
      args ++ pick isArgument (i + 2 * args.length) (crlfSegments rest) := by
  induction args generalizing i with
  | nil => rfl
  | cons arg args ih =>
    rw [List.flatMap_cons, List.append_assoc, pick_bulkString hi, crlfSegments,
      segments_append (by decide) (hargs arg (by simp)), pick, isArgument_succ_of_odd hi, if_pos rfl]
    have := ih (fun arg ha => hargs arg (List.mem_cons_of_mem _ ha)) (show (i + 2) % 2 = 1 by omega)
    rw [crlfSegments] at this
    rw [this, List.cons_append, List.length_cons,
      show i + 2 + 2 * args.length = i + 2 * (args.length + 1) by omega]

theorem noCrlf_of_crlfOffset {args : List (List UInt8)} (h : crlfOffset args = none) :
    ∀ arg ∈ args, ¬ [0x0d, 0x0a] <:+: arg := by
  induction args with
  | nil => simp
  | cons arg args ih =>
    rw [crlfOffset] at h
    cases hc : cut 0x0d 0x0a arg with
    | some p => simp [hc] at h
    | none =>
      simp only [hc, Option.map_eq_none_iff] at h
      intro x hx
      rcases List.mem_cons.mp hx with rfl | hx
      · exact not_infix_of_cut_none hc
      · exact ih h x hx

/-- Up to the first CR LF inside an argument the segments are the arguments. -/
theorem pick_of_crlfOffset {args : List (List UInt8)} {n : Nat} (h : crlfOffset args = some n)
    {i : Nat} (hi : i % 2 = 1) :
    ∃ before x y after more, args = before ++ (x ++ 0x0d :: 0x0a :: y) :: after ∧
      pick isArgument i (crlfSegments (args.flatMap bulkString)) = before ++ x :: more ∧
      n = (before.map (fun arg => arg.length + 1)).sum + x.length := by
  induction args generalizing i n with
  | nil => simp [crlfOffset] at h
  | cons arg args ih =>
    rw [crlfOffset] at h
    rw [List.flatMap_cons, pick_bulkString hi]
    cases hc : cut 0x0d 0x0a arg with
    | some p =>
      obtain ⟨x, y⟩ := p
      simp only [hc, Option.some.injEq] at h
      refine ⟨[], x, y, args, pick isArgument (i + 2)
        (crlfSegments (y ++ 0x0d :: 0x0a :: args.flatMap bulkString)),
        by rw [eq_of_cut hc, List.nil_append], ?_, by simpa using h.symm⟩
      rw [crlfSegments, segments_of_cut (cut_append_of_cut hc _), pick, isArgument_succ_of_odd hi,
        if_pos rfl]
      rfl
    | none =>
      simp only [hc, Option.map_eq_some_iff] at h
      obtain ⟨m, hm, rfl⟩ := h
      obtain ⟨before, x, y, after, more, he, hp, hn⟩ := ih hm (show (i + 2) % 2 = 1 by omega)
      refine ⟨arg :: before, x, y, after, more, by rw [he, List.cons_append], ?_, ?_⟩
      · rw [crlfSegments, segments_append (by decide) (not_infix_of_cut_none hc), pick,
          isArgument_succ_of_odd hi, if_pos rfl, List.cons_append]
        exact congrArg (arg :: ·) hp
      · rw [List.map_cons, List.sum_cons]
        omega

theorem printsArguments_iff {command pieces : List (List UInt8)} {rest first : List UInt8}
    (hp : pick isArgument 1 (crlfSegments (command.flatMap bulkString ++ rest)) = pieces)
    (hhead : pieces.head? = some first) (hf : first ≠ []) (args : List (List UInt8)) :
    PrintsArguments (respArray command ++ rest) args ↔ commandLine pieces = commandLine args := by
  obtain ⟨tail, rfl⟩ := List.head?_eq_some_iff.mp hhead
  have hpick : arguments (crlfSegments (respArray command ++ rest)) = first :: tail := by
    rw [arguments_eq_pick, crlfSegments_respArray, pick, if_neg (by decide), hp]
  have hline : joinLine 0x20 (first :: tail) ≠ [] := by
    rw [joinLine, List.foldl_cons, extend, if_pos rfl, foldl_extend_of_ne_nil _ hf]
    simp [hf]
  have hstar : (respArray command ++ rest).head? = some 0x2a := rfl
  rw [PrintsArguments, formatRedis_summary (Int.le_refl _), if_pos rfl, Int.toNat_natCast,
    List.take_length, redisSummary, if_pos hstar, hpick, summaryOf,
    if_neg (fun h => hline (sanitize_eq_nil.mp h)), joinLine_eq_intercalate _ hf, Option.some_inj,
    Option.some_inj]
  rfl

theorem commandLine_eq_iff (before after after' : List (List UInt8)) (x z z' : List UInt8) :
    commandLine (before ++ (x ++ z) :: after) = commandLine (before ++ (x ++ z') :: after') ↔
      (sanitize (z ++ after.flatMap (fun arg => 0x20 :: arg))).take
          (127 - ((before.map (fun arg => arg.length + 1)).sum + x.length)) =
        (sanitize (z' ++ after'.flatMap (fun arg => 0x20 :: arg))).take
          (127 - ((before.map (fun arg => arg.length + 1)).sum + x.length)) := by
  rw [commandLine, commandLine, intercalate_append_cons, intercalate_append_cons,
    sanitize_append ([0x20].intercalate _), sanitize_append ([0x20].intercalate _), take_append_inj,
    length_sanitize, length_intercalate_concat]

theorem head?_flatMap_space (args : List (List UInt8)) :
    (sanitize (args.flatMap (fun arg => 0x20 :: arg))).head? ≠ some 0x2e := by
  cases args with
  | nil => simp [sanitize]
  | cons arg args => simp [sanitize]

/-- A CR LF inside an argument is printed as a separator. It goes unnoticed exactly when it
stands behind the last byte of the summary. -/
theorem commandLine_crlf_iff (before after more : List (List UInt8)) (x y : List UInt8) :
    commandLine (before ++ x :: more) = commandLine (before ++ (x ++ 0x0d :: 0x0a :: y) :: after) ↔
      127 ≤ (before.map (fun arg => arg.length + 1)).sum + x.length := by
  have h := commandLine_eq_iff before more after x [] (0x0d :: 0x0a :: y)
  rw [List.append_nil, List.nil_append, take_eq_iff_of_head_ne (head?_flatMap_space more)] at h
  rw [h]
  omega

/-- `format_redis` prints the arguments of a command as long as no CR LF inside one of
them begins within the 127 bytes it may print. -/
theorem redis_command_printed_iff {first : List UInt8} (hf : first ≠ [])
    (args : List (List UInt8)) :
    ((∀ n, crlfOffset (first :: args) = some n → 127 ≤ n) →
      PrintsArguments (respArray (first :: args)) (first :: args)) ∧
    (¬ [0x0d, 0x0a] <+: first →
      (PrintsArguments (respArray (first :: args)) (first :: args) ↔
        ∀ n, crlfOffset (first :: args) = some n → 127 ≤ n)) := by
  rw [← List.append_nil (respArray _)]
  cases hc : crlfOffset (first :: args) with
  | none =>
    have hp := pick_arguments (noCrlf_of_crlfOffset hc) [] (show 1 % 2 = 1 from rfl)
    rw [crlfSegments_nil, pick, List.append_nil (first :: args)] at hp
    have hprints := (printsArguments_iff hp rfl hf (first :: args)).mpr rfl
    exact ⟨fun _ => hprints, fun _ => ⟨fun _ => by simp, fun _ => hprints⟩⟩
  | some n =>
    obtain ⟨before, x, y, after, more, he, hp, hn⟩ := pick_of_crlfOffset hc (show 1 % 2 = 1 from rfl)
    rw [← List.append_nil ((first :: args).flatMap _)] at hp
    have hcond : (∀ m, some n = some m → 127 ≤ m) ↔ 127 ≤ n := by simp
    rw [hcond]
    by_cases hx : before = [] ∧ x = []
    · have hpre : [0x0d, 0x0a] <+: first := by
        rw [hx.1, hx.2, List.nil_append, List.nil_append, List.cons.injEq] at he
        exact ⟨y, he.1.symm⟩
      rw [hx.1, hx.2] at hn
      simp only [List.map_nil, List.sum_nil, List.length_nil] at hn
      exact ⟨fun h => by omega, fun hno => absurd hpre hno⟩
    · have hhead : ∃ piece, (before ++ x :: more).head? = some piece ∧ piece ≠ [] := by
        cases before with
        | nil => exact ⟨x, rfl, fun h => hx ⟨rfl, h⟩⟩
        | cons arg before =>
          rw [List.cons_append, List.cons.injEq] at he
          exact ⟨first, by rw [he.1]; rfl, hf⟩
      obtain ⟨piece, hpiece, hne⟩ := hhead
      have hiff := printsArguments_iff hp hpiece hne (first :: args)
      rw [he, commandLine_crlf_iff, ← hn, ← he] at hiff
      exact ⟨hiff.mpr, fun _ => hiff⟩

/-- `SET k "a\r\nb"` is printed as `SET k a`. -/
def binaryValue : List (List UInt8) := [[0x53, 0x45, 0x54], [0x6b], [0x61, 0x0d, 0x0a, 0x62]]

theorem binaryValue_not_printed :
    ¬ PrintsArguments (respArray binaryValue) binaryValue ∧
      formatRedis true (respArray binaryValue) (respArray binaryValue).length =
        some (some [0x53, 0x45, 0x54, 0x20, 0x6b, 0x20, 0x61]) := by
  decide +kernel

theorem redis_get_printed :
    ([0x47, 0x45, 0x54] : List UInt8) ≠ [] ∧
      PrintsArguments (respArray [[0x47, 0x45, 0x54], [0x61]]) [[0x47, 0x45, 0x54], [0x61]] :=
  ⟨by decide, (redis_command_printed_iff (by decide) [[0x61]]).1 (by simp [crlfOffset, cut])⟩

theorem pick_pipeline {command : List (List UInt8)} (hc : ∀ arg ∈ command, ¬ [0x0d, 0x0a] <:+: arg)
    (arg : List UInt8) (args : List (List UInt8)) (rest : List UInt8) :
    ∃ more, pick isArgument 1 (crlfSegments (command.flatMap bulkString ++
        (respArray (arg :: args) ++ rest))) =
      command ++ (0x24 :: (CString.decimal arg.length).bytes) :: more := by
  rw [pick_arguments hc _ (show 1 % 2 = 1 from rfl), crlfSegments_respArray, pick,
    isArgument_of_odd (by omega), if_neg (by simp), List.flatMap_cons, List.append_assoc,
    crlfSegments_bulkString, pick, isArgument_succ_of_odd (by omega), if_pos rfl]
  exact ⟨_, rfl⟩

theorem sum_length_eq {command : List (List UInt8)} (h : command ≠ []) :
    (command.map (fun arg => arg.length + 1)).sum = ([0x20].intercalate command).length + 1 := by
  obtain ⟨init, last, rfl⟩ := (List.eq_nil_or_concat command).resolve_left h
  rw [List.concat_eq_append, length_intercalate_concat, List.map_append, List.sum_append]
  simp
  omega

theorem printable_eq_dollar {c : UInt8} : printable c = 0x24 ↔ c = 0x24 := by
  rw [printable]
  split
  · rfl
  case isFalse h =>
    refine ⟨fun he => absurd he (by decide), fun he => ?_⟩
    rw [he] at h
    exact absurd (by decide) h

/-- A length line stands where the next command's first argument belongs. -/
theorem commandLine_pipeline_iff {command : List (List UInt8)} (h : command ≠ []) {arg : List UInt8}
    (harg : arg ≠ []) (hd : arg.head? ≠ some 0x24) (digits : List UInt8)
    (after more : List (List UInt8)) :
    commandLine (command ++ (0x24 :: digits) :: more) = commandLine (command ++ arg :: after) ↔
      126 ≤ ([0x20].intercalate command).length := by
  have hiff := commandLine_eq_iff command more after [] (0x24 :: digits) arg
  obtain ⟨c, cs, rfl⟩ := List.exists_cons_of_ne_nil harg
  have hc : printable c ≠ 0x24 := fun he => hd (congrArg some (printable_eq_dollar.mp he))
  have hne : (sanitize ((0x24 :: digits) ++ more.flatMap (fun arg => 0x20 :: arg))).head? ≠
      (sanitize ((c :: cs) ++ after.flatMap (fun arg => 0x20 :: arg))).head? := by
    simp only [sanitize, List.cons_append, List.map_cons, List.head?_cons, ne_eq, Option.some.injEq]
    exact fun he => hc he.symm
  rw [List.nil_append, List.nil_append, take_eq_iff_of_head_ne hne, List.length_nil,
    sum_length_eq h] at hiff
  rw [hiff]
  omega

theorem commandLine_pipeline_cut {command : List (List UInt8)} (h : command ≠ [])
    (hlong : 126 ≤ ([0x20].intercalate command).length) (arg arg' : List UInt8)
    (after more : List (List UInt8)) :
    commandLine (command ++ arg' :: more) = commandLine (command ++ arg :: after) := by
  have hiff := commandLine_eq_iff command more after [] arg' arg
  rw [List.nil_append, List.nil_append, List.length_nil, sum_length_eq h] at hiff
  rw [hiff, show 127 - (([0x20].intercalate command).length + 1 + 0) = 0 by omega, List.take_zero,
    List.take_zero]

/-- Every array has an odd number of lines, so `format_redis` is out of step in the second
command: it prints the whole pipeline only if that command lies behind the cut. -/
theorem redis_pipeline_printed_iff (command : List (List UInt8)) (commands : List (List (List UInt8)))
    (h : ∀ c ∈ command :: commands, c ≠ [] ∧ ∀ arg ∈ c, arg ≠ [] ∧ 0x0d ∉ arg ∧ 0x0a ∉ arg) :
    ((commands = [] ∨ 126 ≤ ([0x20].intercalate command).length) →
      PrintsArguments ((command :: commands).flatMap respArray) (command :: commands).flatten) ∧
    ((∀ arg, commands.flatten.head? = some arg → arg.head? ≠ some 0x24) →
      (PrintsArguments ((command :: commands).flatMap respArray) (command :: commands).flatten ↔
        commands = [] ∨ 126 ≤ ([0x20].intercalate command).length)) := by
  have hcommand := h command (by simp)
  have hclean : ∀ arg ∈ command, ¬ [0x0d, 0x0a] <:+: arg := fun arg ha hi =>
    (hcommand.2 arg ha).2.1 (hi.subset (by simp))
  obtain ⟨first, tail, hfirst⟩ := List.exists_cons_of_ne_nil hcommand.1
  have hne : first ≠ [] := (hcommand.2 first (by simp [hfirst])).1
  rw [List.flatMap_cons, List.flatten_cons]
  cases commands with
  | nil =>
    have hp := pick_arguments hclean [] (show 1 % 2 = 1 from rfl)
    rw [crlfSegments_nil, pick, List.append_nil command] at hp
    have hprints := (printsArguments_iff hp (by rw [hfirst]; rfl) hne command).mpr rfl
    simpa using hprints
  | cons next commands =>
    have hnext := h next (by simp)
    obtain ⟨arg, args, rfl⟩ := List.exists_cons_of_ne_nil hnext.1
    have harg : arg ≠ [] := (hnext.2 arg (by simp)).1
    obtain ⟨more, hp⟩ := pick_pipeline hclean arg args (commands.flatMap respArray)
    have hiff := printsArguments_iff hp (by rw [hfirst]; rfl) hne
      (command ++ arg :: (args ++ commands.flatten))
    rw [List.flatMap_cons, List.flatten_cons, List.cons_append, hiff]
    simp only [reduceCtorEq, false_or]
    refine ⟨fun hlong => commandLine_pipeline_cut hcommand.1 hlong arg _ _ more, fun hd => ?_⟩
    exact commandLine_pipeline_iff hcommand.1 harg (hd arg rfl) _ _ more

/-- `GET a` and `GET b` sent together are printed as `GET a $3 $1`. -/
def pipelinedGets : List (List (List UInt8)) :=
  [[[0x47, 0x45, 0x54], [0x61]], [[0x47, 0x45, 0x54], [0x62]]]

theorem pipelinedGets_not_printed :
    ¬ PrintsArguments (pipelinedGets.flatMap respArray) pipelinedGets.flatten ∧
      formatRedis true (pipelinedGets.flatMap respArray) (pipelinedGets.flatMap respArray).length =
        some (some [0x47, 0x45, 0x54, 0x20, 0x61, 0x20, 0x24, 0x33, 0x20, 0x24, 0x31]) := by
  decide +kernel

theorem single_command_printed :
    PrintsArguments (respArray [[0x50, 0x49, 0x4e, 0x47]]) [[0x50, 0x49, 0x4e, 0x47]] ∧
      ¬ PrintsArguments (pipelinedGets.flatMap respArray) pipelinedGets.flatten := by
  have hping := (redis_pipeline_printed_iff [[0x50, 0x49, 0x4e, 0x47]] [] (by simp)).1 (Or.inl rfl)
  refine ⟨by simpa using hping, ?_⟩
  rw [pipelinedGets, (redis_pipeline_printed_iff _ _ (by simp)).2 (by simp)]
  decide

end Tcpkit
