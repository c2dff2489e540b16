import Mdswp.Foundations.LockOrder
import Mdswp.Listener.Inner

/-!
# The locks

Which locks each function takes, how it takes them, and in which order, as a program of
`LockAction`s. A temporary guard is held to the end of its statement; that of a scrutinee, to the
end of the `match`. Where the source branches, or loops, the program takes the branch and the number
of rounds as arguments: `none` and `false` where a check fails.

Every function takes its locks by increasing `Lock.rank` (`Call.balanced`), so the threads of the
users, the workers and the listeners never deadlock (`threads_never_deadlock`).
-/

namespace Mdswp

open LockOrder

abbrev ListenerId := ℕ

inductive Lock
  | connState (stream : StreamId)
  | sendBuffer (stream : StreamId)
  | sendStorage (stream : StreamId)
  | sendFinished (stream : StreamId)
  | recvBuffer (stream : StreamId)
  | recvStorage (stream : StreamId)
  | recvFinished (stream : StreamId)
  | thread (stream : StreamId)
  | connections (listener : ListenerId)
  | toAccept (listener : ListenerId)
  | error (listener : ListenerId)
  | listenThread (listener : ListenerId)
  deriving DecidableEq

/-- The order in which the locks are taken. -/
@[simp]
def Lock.rank : Lock → ℕ
  | error _ => 1
  | toAccept _ => 2
  | sendBuffer _ => 3
  | recvBuffer _ => 3
  | connState _ => 4
  | sendStorage _ => 5
  | recvStorage _ => 6
  | connections _ => 7
  | sendFinished _ => 7
  | recvFinished _ => 7
  | thread _ => 7
  | listenThread _ => 7

abbrev LockProgram := List (LockAction Lock)

namespace Locks

/-! ## A stream -/

section Stream

variable (listener : StreamId → ListenerId) (stream : StreamId)

def isErr : LockProgram := during (.connState stream) .read []

def streamState : LockProgram := during (.connState stream) .read []

def isWriteFinished (healthy : Bool) : LockProgram :=
  streamState stream ++ if healthy then during (.sendFinished stream) .read [] else []

def isReadFinished (healthy : Bool) : LockProgram :=
  streamState stream ++ if healthy then during (.recvFinished stream) .read [] else []

/-- A loop that pushes while `sendBuffer` is held. -/
def pushing : Option ℕ → LockProgram
  | none => streamState stream
  | some pushes =>
    streamState stream ++ during (.sendBuffer stream) .write
      (List.replicate pushes (during (.sendStorage stream) .write [])).flatten

def write (pushes : Option ℕ) : LockProgram := pushing stream pushes

def flush (pushes : Option ℕ) : LockProgram := pushing stream pushes

def removeConnection (l : ListenerId) : LockProgram := during (.connections l) .write []

/-- `error`; the guards are dropped in the order in which they were acquired. -/
def error (first : Bool) : LockProgram :=
  isErr stream ++
    if first then
      [.acquire (.connState stream) .write, .acquire (.sendStorage stream) .write,
        .acquire (.recvStorage stream) .write] ++
      removeConnection (listener stream) ++
      [.release (.connState stream), .release (.sendStorage stream),
        .release (.recvStorage stream)]
    else []

/-- `error`, if something has gone wrong. -/
def errorIf : Option Bool → LockProgram
  | none => []
  | some first => error listener stream first

/-- How a `finish_write` goes on after its flush. -/
inductive FinishPath
  | flushFails
  | waits (polls : ℕ)
  | refused (first : Bool)

def finishWrite (pushes : Option ℕ) : FinishPath → LockProgram
  | .flushFails => flush stream pushes
  | .waits polls =>
    flush stream pushes ++ during (.sendStorage stream) .write [] ++
      (List.replicate polls (during (.sendStorage stream) .read [])).flatten ++
      during (.sendFinished stream) .write []
  | .refused first =>
    flush stream pushes ++ during (.sendStorage stream) .write [] ++ error listener stream first

def reset (healthy first : Bool) : LockProgram :=
  streamState stream ++ if healthy then error listener stream first else []

/-- One round of the loop of `read`; `finish` if it pops `Finish`. -/
def readRound (finish : Bool) : LockProgram :=
  isReadFinished stream true ++ during (.recvStorage stream) .write [] ++
    if finish then during (.recvFinished stream) .write [] else []

/-- `read`; `last` if the loop ends by `is_read_finished`. -/
def read (healthy : Bool) (rounds : List Bool) (last : Option Bool) : LockProgram :=
  during (.recvBuffer stream) .write
    (isReadFinished stream healthy ++ rounds.flatMap (readRound stream) ++
      match last with
      | none => []
      | some healthy => isReadFinished stream healthy)

def recvAcknowledge (rejected : Option Bool) : LockProgram :=
  during (.sendStorage stream) .write [] ++ errorIf listener stream rejected

def recvSequential (rejected : Option Bool) : LockProgram :=
  during (.recvStorage stream) .write [] ++ errorIf listener stream rejected

inductive SegmentPath
  /-- `Reset` or `Establish`. -/
  | ends (first : Bool)
  | acknowledge (rejected : Option Bool)
  | sequential (rejected : Option Bool)

def recvSegment : SegmentPath → LockProgram
  | .ends first => error listener stream first
  | .acknowledge rejected => recvAcknowledge listener stream rejected
  | .sequential rejected => recvSequential listener stream rejected

/-- Where `Drop` ends. -/
inductive DropPath
  | errored
  | unwritten (first : Bool)
  | unread (first : Bool)
  | finished

def drop : DropPath → LockProgram
  | .errored => isErr stream
  | .unwritten first =>
    isErr stream ++ isWriteFinished stream true ++ reset listener stream true first
  | .unread first =>
    isErr stream ++ isWriteFinished stream true ++ isReadFinished stream true ++
      reset listener stream true first
  | .finished => isErr stream ++ isWriteFinished stream true ++ isReadFinished stream true

/-- An `Arc` goes; if it is the last one, `Drop` runs. -/
def release : Option DropPath → LockProgram
  | none => []
  | some path => drop listener stream path

/-- What a round of `__thread` does. -/
inductive ThreadPath
  | errored
  | finished (healthy : Bool)
  /-- `failed` if the acknowledgement, or the last segment, cannot be sent. -/
  | sends (turns : ℕ) (failed : Option Bool)

def threadRound (last : Option DropPath) : ThreadPath → LockProgram
  | .errored => isErr stream ++ release listener stream last
  | .finished healthy =>
    isErr stream ++ isWriteFinished stream healthy ++ release listener stream last
  | .sends turns failed =>
    isErr stream ++ isWriteFinished stream true ++ during (.recvStorage stream) .write [] ++
      (List.replicate turns (during (.sendStorage stream) .write [])).flatten ++
      errorIf listener stream failed ++ release listener stream last

end Stream

/-! ## A listener -/

section Listener

variable (listener : StreamId → ListenerId) (l : ListenerId)

def listenerState : LockProgram := during (.error l) .read []

def addConnection : LockProgram := during (.connections l) .write []

def startThread : LockProgram := during (.listenThread l) .write []

/-- What `accept_nonblocking` finds. -/
inductive AcceptPath
  | errored
  | none
  | healthy (stream : StreamId)
  /-- The stream has errored, and is dropped before the guards are. -/
  | failed (stream : StreamId) (last : Bool)

def acceptNonblocking : AcceptPath → LockProgram
  | .errored => during (.error l) .read []
  | .none => during (.error l) .read (during (.toAccept l) .write [])
  | .healthy stream =>
    during (.error l) .read (during (.toAccept l) .write (streamState stream))
  | .failed stream last =>
    during (.error l) .read (during (.toAccept l) .write
      (streamState stream ++ if last then isErr stream else []))

/-- What `__recv` does with a datagram. -/
inductive RecvPath
  /-- It is malformed. -/
  | malformed (stream : StreamId) (first : Bool) (last : Option DropPath)
  | segment (stream : StreamId) (path : SegmentPath) (last : Option DropPath)
  | establish (stream : StreamId) (last : Option DropPath)
  | refuse

def recv : RecvPath → LockProgram
  | .malformed stream first last =>
    during (.connections l) .read [] ++ error listener stream first ++
      release listener stream last
  | .segment stream path last =>
    during (.connections l) .read [] ++ recvSegment listener stream path ++
      release listener stream last
  | .establish stream last =>
    during (.connections l) .read [] ++ during (.thread stream) .write [] ++
      during (.connections l) .write [] ++ during (.toAccept l) .write [] ++
      release listener stream last
  | .refuse => during (.connections l) .read []

/-- What a turn of `__listen_thread` finds. -/
inductive ListenPath
  | errored
  | interrupted
  | socketFails
  | received (path : RecvPath)

def listenThread : ListenPath → LockProgram
  | .errored => listenerState l
  | .interrupted => listenerState l
  | .socketFails => listenerState l ++ during (.error l) .write []
  | .received path => listenerState l ++ recv listener l path

/-- An attempt to connect, from the stream on. -/
inductive ConnectPath
  | connected
  /-- The thread of the listener cannot be started, and the stream is dropped. -/
  | startFails (path : DropPath)

def trySingleConnectTo (stream : StreamId) : ConnectPath → LockProgram
  | .connected => during (.thread stream) .write [] ++ startThread l ++ addConnection l
  | .startFails path => during (.thread stream) .write [] ++ drop listener stream path

end Listener

/-- What a thread does from one moment without locks to the next. -/
inductive Call
  | isErr (stream : StreamId)
  | streamState (stream : StreamId)
  | isWriteFinished (stream : StreamId) (healthy : Bool)
  | isReadFinished (stream : StreamId) (healthy : Bool)
  | write (stream : StreamId) (pushes : Option ℕ)
  | flush (stream : StreamId) (pushes : Option ℕ)
  | finishWrite (stream : StreamId) (pushes : Option ℕ) (path : FinishPath)
  | reset (stream : StreamId) (healthy first : Bool)
  | read (stream : StreamId) (healthy : Bool) (rounds : List Bool) (last : Option Bool)
  | drop (stream : StreamId) (path : DropPath)
  | threadRound (stream : StreamId) (last : Option DropPath) (path : ThreadPath)
  | listenerState (l : ListenerId)
  | acceptNonblocking (l : ListenerId) (path : AcceptPath)
  | listenThread (l : ListenerId) (path : ListenPath)
  | startThread (l : ListenerId)
  | trySingleConnectTo (l : ListenerId) (stream : StreamId) (path : ConnectPath)

def Call.program (listener : StreamId → ListenerId) : Call → LockProgram
  | .isErr stream => Locks.isErr stream
  | .streamState stream => Locks.streamState stream
  | .isWriteFinished stream healthy => Locks.isWriteFinished stream healthy
  | .isReadFinished stream healthy => Locks.isReadFinished stream healthy
  | .write stream pushes => Locks.write stream pushes
  | .flush stream pushes => Locks.flush stream pushes
  | .finishWrite stream pushes path => Locks.finishWrite listener stream pushes path
  | .reset stream healthy first => Locks.reset listener stream healthy first
  | .read stream healthy rounds last => Locks.read stream healthy rounds last
  | .drop stream path => Locks.drop listener stream path
  | .threadRound stream last path => Locks.threadRound listener stream last path
  | .listenerState l => Locks.listenerState l
  | .acceptNonblocking l path => Locks.acceptNonblocking l path
  | .listenThread l path => Locks.listenThread listener l path
  | .startThread l => Locks.startThread l
  | .trySingleConnectTo l stream path => Locks.trySingleConnectTo listener l stream path

/-- A thread that makes the calls, one after the other. -/
def thread (listener : StreamId → ListenerId) (calls : List Call) : LockThread Lock where
  held := []
  todo := calls.flatMap (Call.program listener)

/-! ## Every function takes its locks in order -/

section Balanced

variable {n : ℕ} {listener : StreamId → ListenerId} {stream : StreamId} {l : ListenerId}

/-- A lock that is taken by itself. -/
theorem balanced_alone {lock : Lock} (hn : n < lock.rank) (mode : LockMode) :
    Balanced Lock.rank n (during lock mode []) := Balanced.nil.during hn

theorem balanced_streamState (hn : n < 4) : Balanced Lock.rank n (streamState stream) :=
  balanced_alone hn .read

theorem balanced_isErr (hn : n < 4) : Balanced Lock.rank n (isErr stream) :=
  balanced_alone hn .read

theorem balanced_isWriteFinished (hn : n < 4) (healthy : Bool) :
    Balanced Lock.rank n (isWriteFinished stream healthy) :=
  (balanced_streamState hn).append
    (.ite (fun _ => balanced_alone (hn.trans (by simp)) .read) fun _ => .nil)

theorem balanced_isReadFinished (hn : n < 4) (healthy : Bool) :
    Balanced Lock.rank n (isReadFinished stream healthy) :=
  (balanced_streamState hn).append
    (.ite (fun _ => balanced_alone (hn.trans (by simp)) .read) fun _ => .nil)

theorem balanced_pushing (pushes : Option ℕ) : Balanced Lock.rank 0 (pushing stream pushes) := by
  cases pushes with
  | none => exact balanced_streamState (by simp)
  | some pushes =>
    have hpush : Balanced Lock.rank 3 (during (.sendStorage stream) .write []) :=
      balanced_alone (by simp) .write
    exact (balanced_streamState (by simp)).append ((hpush.replicate pushes).during (by simp))

/-- The guards of `error` are not nested. -/
theorem balanced_error (hn : n < 4) (first : Bool) :
    Balanced Lock.rank n (error listener stream first) := by
  refine (balanced_isErr hn).append (.ite (fun _ => ⟨?_, ?_⟩) fun _ => .nil)
  · simp [Ordered, removeConnection, during]
  · intro lock mode hm
    have hrank : 4 ≤ lock.rank := by
      simp only [removeConnection, during, List.mem_append, List.mem_cons, List.not_mem_nil,
        or_false, reduceCtorEq, LockAction.acquire.injEq] at hm
      rcases hm with (⟨rfl, -⟩ | ⟨rfl, -⟩ | ⟨rfl, -⟩) | ⟨rfl, -⟩ <;> simp
    exact hn.trans_le hrank

theorem balanced_errorIf (hn : n < 4) (first : Option Bool) :
    Balanced Lock.rank n (errorIf listener stream first) := by
  cases first with
  | none => exact .nil
  | some first => exact balanced_error hn first

theorem balanced_finishWrite (pushes : Option ℕ) (path : FinishPath) :
    Balanced Lock.rank 0 (finishWrite listener stream pushes path) := by
  have hflush : Balanced Lock.rank 0 (flush stream pushes) := balanced_pushing pushes
  have hstorage (mode : LockMode) : Balanced Lock.rank 0 (during (.sendStorage stream) mode []) :=
    balanced_alone (by simp) mode
  cases path with
  | flushFails => exact hflush
  | waits polls =>
    exact ((hflush.append (hstorage .write)).append ((hstorage .read).replicate polls)).append
      (balanced_alone (by simp) .write)
  | refused first =>
    exact (hflush.append (hstorage .write)).append (balanced_error (by simp) first)

theorem balanced_reset (hn : n < 4) (healthy first : Bool) :
    Balanced Lock.rank n (reset listener stream healthy first) :=
  (balanced_streamState hn).append
    (.ite (fun _ => balanced_error hn first) fun _ => .nil)

theorem balanced_readRound (finish : Bool) :
    Balanced Lock.rank 3 (readRound stream finish) :=
  ((balanced_isReadFinished (by simp) true).append (balanced_alone (by simp) .write)).append
    (.ite (fun _ => balanced_alone (by simp) .write) fun _ => .nil)

theorem balanced_read (healthy : Bool) (rounds : List Bool) (last : Option Bool) :
    Balanced Lock.rank 0 (read stream healthy rounds last) := by
  have hrounds : Balanced Lock.rank 3
      (isReadFinished stream healthy ++ rounds.flatMap (readRound stream)) :=
    (balanced_isReadFinished (by simp) healthy).append
      (.flatMap fun finish _ => balanced_readRound finish)
  refine Balanced.during (hrounds.append ?_) (by simp)
  cases last with
  | none => exact .nil
  | some healthy => exact balanced_isReadFinished (by simp) healthy

theorem balanced_recvSegment (path : SegmentPath) :
    Balanced Lock.rank 0 (recvSegment listener stream path) := by
  cases path with
  | ends first => exact balanced_error (by simp) first
  | acknowledge rejected =>
    exact (balanced_alone (by simp) .write).append (balanced_errorIf (by simp) rejected)
  | sequential rejected =>
    exact (balanced_alone (by simp) .write).append (balanced_errorIf (by simp) rejected)

theorem balanced_drop (path : DropPath) : Balanced Lock.rank 0 (drop listener stream path) := by
  have hisErr : Balanced Lock.rank 0 (isErr stream) := balanced_isErr (by simp)
  have hwrite : Balanced Lock.rank 0 (isErr stream ++ isWriteFinished stream true) :=
    hisErr.append (balanced_isWriteFinished (by simp) true)
  have hread : Balanced Lock.rank 0
      (isErr stream ++ isWriteFinished stream true ++ isReadFinished stream true) :=
    hwrite.append (balanced_isReadFinished (by simp) true)
  cases path with
  | errored => exact hisErr
  | unwritten first => exact hwrite.append (balanced_reset (by simp) true first)
  | unread first => exact hread.append (balanced_reset (by simp) true first)
  | finished => exact hread

theorem balanced_release (last : Option DropPath) :
    Balanced Lock.rank 0 (release listener stream last) := by
  cases last with
  | none => exact .nil
  | some path => exact balanced_drop path

theorem balanced_threadRound (last : Option DropPath) (path : ThreadPath) :
    Balanced Lock.rank 0 (threadRound listener stream last path) := by
  have hisErr : Balanced Lock.rank 0 (isErr stream) := balanced_isErr (by simp)
  cases path with
  | errored => exact hisErr.append (balanced_release last)
  | finished healthy =>
    exact (hisErr.append (balanced_isWriteFinished (by simp) healthy)).append
      (balanced_release last)
  | sends turns failed =>
    have hturn : Balanced Lock.rank 0 (during (.sendStorage stream) .write []) :=
      balanced_alone (by simp) .write
    have hack : Balanced Lock.rank 0
        (isErr stream ++ isWriteFinished stream true ++ during (.recvStorage stream) .write []) :=
      (hisErr.append (balanced_isWriteFinished (by simp) true)).append
        (balanced_alone (by simp) .write)
    exact ((hack.append (hturn.replicate turns)).append
      (balanced_errorIf (by simp) failed)).append (balanced_release last)

/-- `accept_nonblocking` holds two locks while it asks for the state of the stream. -/
theorem balanced_acceptNonblocking (path : AcceptPath) :
    Balanced Lock.rank 0 (acceptNonblocking l path) := by
  cases path with
  | errored => exact balanced_alone (by simp) .read
  | none => exact .during (balanced_alone (by simp) .write) (by simp)
  | healthy stream =>
    exact .during (.during (balanced_streamState (by simp)) (by simp)) (by simp)
  | failed stream last =>
    refine .during (.during ((balanced_streamState (by simp)).append ?_) (by simp)) (by simp)
    exact .ite (fun _ => balanced_isErr (by simp)) fun _ => .nil

theorem balanced_recv (path : RecvPath) : Balanced Lock.rank 0 (recv listener l path) := by
  have hconnections (mode : LockMode) :
      Balanced Lock.rank 0 (during (.connections l) mode []) := balanced_alone (by simp) mode
  cases path with
  | malformed stream first last =>
    exact ((hconnections .read).append (balanced_error (by simp) first)).append
      (balanced_release last)
  | segment stream path last =>
    exact ((hconnections .read).append (balanced_recvSegment path)).append (balanced_release last)
  | establish stream last =>
    exact ((((hconnections .read).append (balanced_alone (by simp) .write)).append
      (hconnections .write)).append (balanced_alone (by simp) .write)).append
      (balanced_release last)
  | refuse => exact hconnections .read

theorem balanced_listenThread (path : ListenPath) :
    Balanced Lock.rank 0 (listenThread listener l path) := by
  have hstate : Balanced Lock.rank 0 (listenerState l) := balanced_alone (by simp) .read
  cases path with
  | errored => exact hstate
  | interrupted => exact hstate
  | socketFails => exact hstate.append (balanced_alone (by simp) .write)
  | received path => exact hstate.append (balanced_recv path)

theorem balanced_trySingleConnectTo (path : ConnectPath) :
    Balanced Lock.rank 0 (trySingleConnectTo listener l stream path) := by
  have hthread : Balanced Lock.rank 0 (during (.thread stream) .write []) :=
    balanced_alone (by simp) .write
  cases path with
  | connected =>
    exact (hthread.append (balanced_alone (by simp) .write)).append
      (balanced_alone (by simp) .write)
  | startFails path => exact hthread.append (balanced_drop path)

end Balanced

variable (listener : StreamId → ListenerId)

/-- Every call takes its locks by increasing rank, and returns without any. -/
theorem Call.balanced (call : Call) : Balanced Lock.rank 0 (call.program listener) := by
  cases call with
  | isErr stream => exact balanced_isErr (by simp)
  | streamState stream => exact balanced_streamState (by simp)
  | isWriteFinished stream healthy => exact balanced_isWriteFinished (by simp) healthy
  | isReadFinished stream healthy => exact balanced_isReadFinished (by simp) healthy
  | write stream pushes => exact balanced_pushing pushes
  | flush stream pushes => exact balanced_pushing pushes
  | finishWrite stream pushes path => exact balanced_finishWrite pushes path
  | reset stream healthy first => exact balanced_reset (by simp) healthy first
  | read stream healthy rounds last => exact balanced_read healthy rounds last
  | drop stream path => exact balanced_drop path
  | threadRound stream last path => exact balanced_threadRound last path
  | listenerState l => exact balanced_alone (by simp) .read
  | acceptNonblocking l path => exact balanced_acceptNonblocking path
  | listenThread l path => exact balanced_listenThread path
  | startThread l => exact balanced_alone (by simp) .write
  | trySingleConnectTo l stream path => exact balanced_trySingleConnectTo path

theorem disciplined_threads (threads : List (List Call)) :
    Disciplined Lock.rank (threads.map (thread listener)) := by
  intro t ht
  obtain ⟨calls, -, rfl⟩ := List.mem_map.1 ht
  exact (Balanced.flatMap fun call _ => call.balanced listener).ordered

/-- Any number of threads, over any number of streams and listeners, each with any calls, in any
order of their actions: as long as one of them has something to do, one of them goes on without
waiting, and they can all be brought to their ends. -/
theorem threads_never_deadlock (threads : List (List Call)) (is : List ℕ)
    (ts : List (LockThread Lock))
    (hrun : run lockStep (threads.map (thread listener)) is = .ok ts) :
    ((∃ t ∈ ts, t.todo ≠ []) → ∃ t ∈ ts, Proceeds ts t) ∧
      ∃ is' ts', run lockStep ts is' = .ok ts' ∧ ∀ t ∈ ts', t.todo = [] := by
  have hts : Disciplined Lock.rank ts := (disciplined_threads listener threads).of_run hrun
  exact ⟨exists_proceeds hts, hts.run_completes⟩

/-- A reader waits for a reset, and the reset for a write. -/
def waiting : List (List Call) := [[.write 0 (some 1)], [.reset 0 true true], [.isErr 0]]

theorem threads_never_deadlock_waiting :
    ∃ ts, run lockStep (waiting.map (thread fun _ => 0)) [0, 0, 0, 0, 1, 1, 1, 1, 1] = .ok ts ∧
      lockStep ts 1 = .error () ∧ lockStep ts 2 = .error () ∧ (∃ t ∈ ts, Proceeds ts t) ∧
      ∃ is' ts', run lockStep ts is' = .ok ts' ∧ ∀ t ∈ ts', t.todo = [] := by
  obtain ⟨hproceeds, hcompletes⟩ :=
    threads_never_deadlock (fun _ => 0) waiting [0, 0, 0, 0, 1, 1, 1, 1, 1] _ rfl
  refine ⟨_, rfl, rfl, rfl, hproceeds ⟨_, List.mem_cons_self, ?_⟩, hcompletes⟩
  exact List.cons_ne_nil _ _

end Locks

end Mdswp
