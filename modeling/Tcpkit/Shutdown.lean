import Tcpkit.Sniffer

/-! The life of the server: the main thread from `server_create` to the end of
the process, the stats thread it may start, and the signal handler, which can
interrupt either of them. -/

namespace Tcpkit

inductive TerminatePc where
  | load
  | store
  | breakLoop
  deriving DecidableEq

def serverTerminate (stopped : Bool) : TerminatePc → Bool × Option TerminatePc
  | .load => (stopped, if stopped then none else some .store)
  | .store => (true, some .breakLoop)
  | .breakLoop => (stopped, none)

inductive Ending where
  | createFailed
  | captureFailed
  | finished
  deriving DecidableEq

inductive MainPc where
  | create
  | createSniffer
  | spawnStatsThread
  | storeTid
  | publish
  | loop
  | critical
  | terminate (pc : TerminatePc) (ending : Ending)
  | joinFailed
  | joinFinished
  | reportError
  | reportStats
  | destroySniffer
  | freeServer
  | freeOptions
  | exited
  deriving DecidableEq

/-- What follows `server_terminate`: the error path of `server_create` and the
end of `server_run` join the stats thread, a failed `pcap_loop` does not. -/
def Ending.next : Ending → MainPc
  | .createFailed => .joinFailed
  | .captureFailed => .reportError
  | .finished => .joinFinished

inductive StatsPc where
  | notStarted
  | listen
  | warn
  | load
  | poll
  | accept
  | lock
  | walk
  | unlock
  | reply
  | close
  | exited
  | joined
  deriving DecidableEq

structure Environment where
  protocol : ProtocolType
  callocOk : Bool
  snifferOk : Bool
  spawnOk : Bool
  loopResult : Int

/-- The threads, each with the signal handlers that interrupt it, innermost
first, and the shared fields. `published` tells whether `srv` is set. -/
structure Process where
  main : MainPc
  mainHandlers : List TerminatePc
  stats : StatsPc
  statsHandlers : List TerminatePc
  stopped : Bool
  statsTid : Bool
  published : Bool
  deriving DecidableEq

def Process.start : Process := ⟨.create, [], .notStarted, [], false, false, false⟩

/-- Who moves next. `more` tells whether `pcap_loop` has another packet, `ok`
whether `server_listen`, `poll` or `accept` succeeds. -/
inductive Move where
  | main (more : Bool)
  | stats (ok : Bool)
  | signalMain
  | signalStats

namespace StatsPc

def Live (pc : StatsPc) : Prop := pc ≠ .notStarted ∧ pc ≠ .exited ∧ pc ≠ .joined

instance (pc : StatsPc) : Decidable pc.Live := inferInstanceAs (Decidable (_ ∧ _))

def holdsLock : StatsPc → Bool
  | .walk | .unlock => true
  | _ => false

/-- The next step dereferences the server, its sniffer or its options. -/
def reads : StatsPc → Bool
  | .listen | .warn | .load | .lock | .walk | .unlock => true
  | _ => false

def next (stopped ok : Bool) : StatsPc → StatsPc
  | .listen => if ok then .load else .warn
  | .warn => .exited
  | .load => if stopped then .close else .poll
  | .poll => if ok then .accept else .load
  | .accept => if ok then .lock else .load
  | .lock => .walk
  | .walk => .unlock
  | .unlock => .reply
  | .reply => .load
  | .close => .exited
  | pc => pc

theorem next_started {pc : StatsPc} (h : pc.Live) (stopped ok : Bool) :
    pc.next stopped ok ≠ .notStarted ∧ pc.next stopped ok ≠ .joined := by
  obtain ⟨hn, he, hj⟩ := h
  cases pc <;> cases stopped <;> cases ok <;> simp_all [next]

end StatsPc

namespace Process

def join (p : Process) (next : MainPc) : Option Process :=
  if p.statsTid then
    if p.stats = .exited then some { p with main := next, stats := .joined } else none
  else some { p with main := next }

/-- A step of the main thread; `none` when it has to wait. -/
def mainStep (env : Environment) (p : Process) (more : Bool) : Option Process :=
  match p.main with
  | .create => some { p with main := if env.callocOk then .createSniffer else .freeOptions }
  | .createSniffer =>
    some { p with
      main :=
        if env.snifferOk then if env.protocol = .raw then .publish else .spawnStatsThread
        else .terminate .load .createFailed }
  | .spawnStatsThread =>
    if env.spawnOk then some { p with main := .storeTid, stats := .listen }
    else some { p with main := .terminate .load .createFailed }
  | .storeTid => some { p with main := .publish, statsTid := true }
  | .publish => some { p with main := .loop, published := true }
  | .loop =>
    if more then if p.stats.holdsLock then none else some { p with main := .critical }
    else
      some { p with
        main := .terminate .load (if env.loopResult = -1 then .captureFailed else .finished) }
  | .critical => some { p with main := .loop }
  | .terminate pc ending =>
    let flag := serverTerminate p.stopped pc
    some { p with
      stopped := flag.1
      main := match flag.2 with
        | some pc => .terminate pc ending
        | none => ending.next }
  | .joinFailed => p.join .destroySniffer
  | .joinFinished => p.join .reportStats
  | .reportError => some { p with main := .destroySniffer }
  | .reportStats => some { p with main := .destroySniffer }
  | .destroySniffer => some { p with main := .freeServer }
  | .freeServer => some { p with main := .freeOptions }
  | .freeOptions => some { p with main := .exited }
  | .exited => none

def statsStep (p : Process) (ok : Bool) : Option Process :=
  if ¬p.stats.Live then none
  else if p.stats = .lock ∧ p.main = .critical then none
  else some { p with stats := p.stats.next p.stopped ok }

/-- A thread runs its innermost handler before its own code. Nothing moves once
the process has exited. -/
def step (env : Environment) (p : Process) (move : Move) : Option Process :=
  if p.main = .exited then none
  else match move with
    | .main more =>
      match p.mainHandlers with
      | [] => p.mainStep env more
      | pc :: rest =>
        let flag := serverTerminate p.stopped pc
        some { p with stopped := flag.1, mainHandlers := flag.2.toList ++ rest }
    | .stats ok =>
      match p.statsHandlers with
      | [] => p.statsStep ok
      | pc :: rest =>
        let flag := serverTerminate p.stopped pc
        some { p with stopped := flag.1, statsHandlers := flag.2.toList ++ rest }
    | .signalMain =>
      some (if p.published then { p with mainHandlers := .load :: p.mainHandlers } else p)
    | .signalStats =>
      if p.stats.Live then
        some (if p.published then { p with statsHandlers := .load :: p.statsHandlers } else p)
      else none

def run (env : Environment) (p : Process) (moves : List Move) : Option Process :=
  moves.foldlM (step env) p

/-- The next step of the stats thread dereferences the server, its sniffer or its
options; every step of the handler does. -/
def reads (p : Process) : Bool := !p.statsHandlers.isEmpty || p.stats.reads

end Process

def MainPc.Destroying : MainPc → Prop
  | .destroySniffer | .freeServer | .freeOptions | .exited => True
  | _ => False

def Environment.Starts (env : Environment) : Prop :=
  env.callocOk = true ∧ env.snifferOk = true ∧ env.protocol ≠ .raw ∧ env.spawnOk = true

/-- In every interleaving the stats thread takes no step that reads the server
after its destruction has started. -/
def Environment.Safe (env : Environment) : Prop :=
  ∀ moves p, Process.start.run env moves = some p → p.main.Destroying →
    ∀ ok q, p.step env (.stats ok) = some q → p.reads = false

/-- In every interleaving destruction starts only when no stats thread was
started or it has been joined. -/
def Environment.JoinsFirst (env : Environment) : Prop :=
  ∀ moves p, Process.start.run env moves = some p → p.main.Destroying →
    p.stats = .notStarted ∨ p.stats = .joined

/-- What the stats thread may be at each point of the main thread. In the first
points it does not exist, from its start on its id says so, and where the server
is destroyed it is gone. -/
def MainPc.Allows (env : Environment) (tid : Bool) (stats : StatsPc) : MainPc → Prop
  | .create => tid = false ∧ stats = .notStarted
  | .createSniffer => env.callocOk = true ∧ tid = false ∧ stats = .notStarted
  | .spawnStatsThread =>
    env.callocOk = true ∧ env.snifferOk = true ∧ env.protocol ≠ .raw ∧ tid = false ∧
      stats = .notStarted
  | .storeTid => stats ≠ .joined
  | .publish | .loop | .critical | .terminate _ .finished | .joinFinished =>
    stats ≠ .joined ∧ (tid = true ∨ stats = .notStarted)
  | .terminate _ .createFailed | .joinFailed => tid = false ∧ stats = .notStarted
  | .terminate _ .captureFailed | .reportError => stats = .notStarted
  | .reportStats | .destroySniffer | .freeServer | .freeOptions | .exited =>
    stats = .notStarted ∨ stats = .joined

theorem MainPc.Allows.next {env : Environment} {tid : Bool} {stats : StatsPc} {pc : MainPc}
    (h : pc.Allows env tid stats) (hl : stats.Live) (stopped ok : Bool) :
    pc.Allows env tid (stats.next stopped ok) := by
  obtain ⟨-, hnj⟩ := StatsPc.next_started hl stopped ok
  obtain ⟨hn, -, hj⟩ := hl
  cases pc with
  | terminate pc ending => cases ending <;> simp_all [Allows]
  | _ => simp_all [Allows]

namespace Process

variable {env : Environment} {p q : Process}

structure Sound (env : Environment) (p : Process) : Prop where
  quiet : ¬p.stats.Live → p.statsHandlers = []
  started : p.stats ≠ .notStarted → env.Starts
  allows : p.main.Allows env p.statsTid p.stats

theorem Sound.start (env : Environment) : Sound env start :=
  ⟨fun _ => rfl, fun h => absurd rfl h, rfl, rfl⟩

theorem Sound.main (h : p.Sound env) {pc : MainPc} {stopped tid published : Bool}
    (ha : pc.Allows env tid p.stats) :
    Sound env { p with main := pc, stopped := stopped, statsTid := tid, published := published } :=
  ⟨h.quiet, h.started, ha⟩

theorem Sound.join (h : p.Sound env) {next : MainPc} (hstep : p.join next = some q)
    (hgone : p.statsTid = false → p.stats = .notStarted)
    (hnext : ∀ tid stats, stats = .notStarted ∨ stats = .joined → next.Allows env tid stats) :
    q.Sound env := by
  unfold Process.join at hstep
  split at hstep
  · split at hstep
    · rename_i hexit
      cases hstep
      have hlive : ¬p.stats.Live := by
        rw [hexit]
        decide
      have hs : p.stats ≠ .notStarted := by
        rw [hexit]
        decide
      exact ⟨fun _ => h.quiet hlive, fun _ => h.started hs, hnext _ _ (Or.inr rfl)⟩
    · cases hstep
  · rename_i htid
    cases hstep
    exact ⟨h.quiet, h.started, hnext _ _ (Or.inl (hgone (Bool.eq_false_iff.mpr htid)))⟩

theorem Sound.mainStep (h : p.Sound env) (hc : ¬env.Starts ∨ env.loopResult ≠ -1) {more : Bool}
    (hstep : p.mainStep env more = some q) : q.Sound env := by
  have ha := h.allows
  unfold Process.mainStep at hstep
  split at hstep <;> rename_i hpc <;> rw [hpc] at ha
  · cases hstep
    cases hcalloc : env.callocOk with
    | false => exact h.main (Or.inl ha.2)
    | true => exact h.main ⟨hcalloc, ha⟩
  · cases hstep
    obtain ⟨hcalloc, htid, hs⟩ := ha
    cases hsniffer : env.snifferOk with
    | false => exact h.main ⟨htid, hs⟩
    | true =>
      by_cases hraw : env.protocol = .raw
      · simp only [hraw, if_true]
        exact h.main ⟨by rw [hs]; decide, Or.inr hs⟩
      · simp only [if_neg hraw, if_true]
        exact h.main ⟨hcalloc, hsniffer, hraw, htid, hs⟩
  · obtain ⟨hcalloc, hsniffer, hraw, htid, hs⟩ := ha
    split at hstep
    · rename_i hspawn
      cases hstep
      have hlive : StatsPc.listen.Live := by decide
      exact ⟨fun hno => absurd hlive hno, fun _ => ⟨hcalloc, hsniffer, hraw, hspawn⟩, hlive.2.2⟩
    · cases hstep
      exact h.main ⟨htid, hs⟩
  · cases hstep
    exact h.main ⟨ha, Or.inl rfl⟩
  · cases hstep
    exact h.main ha
  · split at hstep
    · split at hstep
      · cases hstep
      · cases hstep
        exact h.main ha
    · cases hstep
      apply h.main
      split
      · rename_i hresult
        by_contra hs
        exact hc.elim (fun hno => hno (h.started hs)) fun hne => hne hresult
      · exact ha
  · cases hstep
    exact h.main ha
  · rename_i pc ending
    cases hstep
    apply h.main
    split
    · cases ending <;> exact ha
    · cases ending <;> exact ha
  · refine h.join hstep (fun _ => ha.2) fun tid stats hs => hs
  · refine h.join hstep (fun htid => ?_) fun tid stats hs => hs
    rcases ha.2 with ht | hs
    · rw [ht] at htid
      cases htid
    · exact hs
  · cases hstep
    exact h.main (Or.inl ha)
  · cases hstep
    exact h.main ha
  · cases hstep
    exact h.main ha
  · cases hstep
    exact h.main ha
  · cases hstep
    exact h.main ha
  · cases hstep

theorem Sound.statsStep (h : p.Sound env) {ok : Bool} (hh : p.statsHandlers = [])
    (hstep : p.statsStep ok = some q) : q.Sound env := by
  unfold Process.statsStep at hstep
  split at hstep
  · cases hstep
  · rename_i hlive
    rw [not_not] at hlive
    split at hstep
    · cases hstep
    · cases hstep
      exact ⟨fun _ => hh, fun _ => h.started hlive.1, h.allows.next hlive _ _⟩

theorem Sound.step (h : p.Sound env) (hc : ¬env.Starts ∨ env.loopResult ≠ -1) {move : Move}
    (hstep : p.step env move = some q) : q.Sound env := by
  unfold Process.step at hstep
  split at hstep
  · cases hstep
  · cases move with
    | main more =>
      cases hm : p.mainHandlers with
      | nil =>
        simp only [hm] at hstep
        exact h.mainStep hc hstep
      | cons pc rest =>
        simp only [hm] at hstep
        cases hstep
        exact ⟨h.quiet, h.started, h.allows⟩
    | stats ok =>
      cases hs : p.statsHandlers with
      | nil =>
        simp only [hs] at hstep
        exact h.statsStep hs hstep
      | cons pc rest =>
        simp only [hs] at hstep
        cases hstep
        refine ⟨fun hno => ?_, h.started, h.allows⟩
        have hnil := h.quiet hno
        rw [hs] at hnil
        cases hnil
    | signalMain =>
      cases hstep
      split
      · exact ⟨h.quiet, h.started, h.allows⟩
      · exact h
    | signalStats =>
      simp only at hstep
      split at hstep
      · rename_i hlive
        cases hstep
        split
        · exact ⟨fun hno => absurd hlive hno, h.started, h.allows⟩
        · exact h
      · cases hstep

theorem Sound.run (h : p.Sound env) (hc : ¬env.Starts ∨ env.loopResult ≠ -1) {moves : List Move}
    (hrun : p.run env moves = some q) : q.Sound env := by
  induction moves generalizing p with
  | nil =>
    cases hrun
    exact h
  | cons move moves ih =>
    obtain ⟨p', hstep, hrest⟩ := Option.bind_eq_some_iff.mp hrun
    exact ih (h.step hc hstep) hrest

theorem Sound.gone (h : p.Sound env) (hd : p.main.Destroying) :
    p.stats = .notStarted ∨ p.stats = .joined := by
  have ha := h.allows
  cases hpc : p.main <;> rw [hpc] at ha hd <;> first | exact ha | cases hd

theorem Sound.reads_eq_false (h : p.Sound env) (hd : p.main.Destroying) : p.reads = false := by
  have hgone := h.gone hd
  have hlive : ¬p.stats.Live := by
    rcases hgone with hs | hs <;> rw [hs] <;> decide
  have hreads : p.stats.reads = false := by
    rcases hgone with hs | hs <;> rw [hs] <;> rfl
  rw [reads, h.quiet hlive, hreads]
  rfl

end Process

namespace Environment

variable {env : Environment}

theorem unjoined_run (hs : env.Starts) (hr : env.loopResult = -1) :
    Process.start.run env (List.replicate 12 (.main false)) =
      some ⟨.freeOptions, [], .listen, [], true, true, true⟩ := by
  obtain ⟨protocol, calloc, sniffer, spawn, result⟩ := env
  obtain ⟨hcalloc, hsniffer, hraw, hspawn⟩ := hs
  simp only at hcalloc hsniffer hspawn hr
  subst hcalloc hsniffer hspawn hr
  cases protocol with
  | raw => exact absurd rfl hraw
  | redis => rfl
  | memcached => rfl
  | http => rfl

end Environment

/-- Every interleaving destroys the server after the stats thread is gone exactly
when no stats thread is started or `pcap_loop` does not fail. -/
theorem destroys_after_join_iff (env : Environment) :
    (env.Safe ↔ ¬env.Starts ∨ env.loopResult ≠ -1) ∧
      (env.JoinsFirst ↔ ¬env.Starts ∨ env.loopResult ≠ -1) := by
  have hbad (hno : ¬(¬env.Starts ∨ env.loopResult ≠ -1)) :
      Process.start.run env (List.replicate 12 (.main false)) =
        some ⟨.freeOptions, [], .listen, [], true, true, true⟩ := by
    rw [not_or, not_not, not_not] at hno
    exact Environment.unjoined_run hno.1 hno.2
  refine ⟨⟨fun hsafe => ?_, fun hc moves p hrun hd ok q hstep => ?_⟩,
    ⟨fun hjoin => ?_, fun hc moves p hrun hd => ?_⟩⟩
  · by_contra hno
    have hreads := hsafe _ _ (hbad hno) trivial true _ rfl
    cases hreads
  · exact ((Process.Sound.start env).run hc hrun).reads_eq_false hd
  · by_contra hno
    rcases hjoin _ _ (hbad hno) trivial with hs | hs <;> cases hs
  · exact ((Process.Sound.start env).run hc hrun).gone hd

def failingCapture : Environment := ⟨.redis, true, true, true, -1⟩

/-- The stats thread waits in `poll` while the main thread destroys the sniffer and
frees the server; it then goes back to load `srv->stopped`. -/
theorem failing_capture_reads_freed_server : ¬failingCapture.Safe := by
  intro hsafe
  let moves : List Move := List.replicate 5 (.main false) ++ [.stats true, .stats true] ++
    List.replicate 7 (.main false) ++ [.stats false]
  have hrun : Process.start.run failingCapture moves =
      some ⟨.freeOptions, [], .load, [], true, true, true⟩ := by decide
  have hreads := hsafe moves _ hrun trivial true _ rfl
  cases hreads

end Tcpkit
