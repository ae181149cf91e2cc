import Mathlib.Data.List.Basic
import Mathlib.Data.List.Count
import Mathlib.Logic.Relation
import Mathlib.Tactic.Ring
import StressAppTest.Library.Loop

/-!
# The registration of workers (`Sat::InitializeThreads`, `Sat::SpawnThreads`)

`InitThread` counts a worker in the `num_workers_` of its `WorkerStatus`, before it is known whether
the worker will run. `SpawnThreads` counts a worker out again whose thread cannot be created, and a
worker that runs counts itself out in `RemoveSelf`. A disk thread whose parameters are refused is
deleted and stays counted (`registration_balance`).
-/

namespace StressAppTest.Control

/-! ## Parameters of a disk thread -/

/-- The arguments of `DiskThread::SetParameters`. -1 says that a setting is to stay as it is. -/
structure DiskParameters where
  readBlockSize : Int
  writeBlockSize : Int
  segmentSize : Int
  cacheSize : Int
  blocksPerSegment : Int
  readThreshold : Int
  writeThreshold : Int
  nonDestructive : Int

/-- The settings of a `DiskThread`. -/
structure DiskSettings where
  readBlockSize : Int
  writeBlockSize : Int
  segmentSize : Int
  cacheSize : Int
  queueSize : Int
  blocksPerSegment : Int
  readThreshold : Int
  writeThreshold : Int
  nonDestructive : Int

def kSectorSize : Int := 512

/-- The constructor of `DiskThread`. -/
def DiskSettings.new : DiskSettings where
  readBlockSize := kSectorSize
  writeBlockSize := kSectorSize
  segmentSize := -1
  cacheSize := 16 * 1024 * 1024
  queueSize := (((16 * 1024 * 1024 : Int).tdiv kSectorSize) * 3).tdiv 2
  blocksPerSegment := 32
  readThreshold := 100000
  writeThreshold := 100000
  nonDestructive := 0

/-- Why `SetParameters` does not return true: it returns false, or it divides by zero, which ends
the process. -/
inductive Fault where
  | rejected
  | divides
  deriving DecidableEq

namespace DiskSettings

def setReadBlockSize (p : DiskParameters) (d : DiskSettings) : Except Fault DiskSettings :=
  if p.readBlockSize = -1 then .ok d
  else if p.readBlockSize.tmod kSectorSize ≠ 0 then .error .rejected
  else .ok { d with readBlockSize := p.readBlockSize }

def setWriteBlockSize (p : DiskParameters) (d : DiskSettings) : Except Fault DiskSettings :=
  if p.writeBlockSize ≠ -1 then
    if p.writeBlockSize.tmod kSectorSize ≠ 0 then .error .rejected
    else if d.readBlockSize = 0 then .error .divides
    else if p.writeBlockSize.tmod d.readBlockSize ≠ 0 then .error .rejected
    else .ok { d with writeBlockSize := p.writeBlockSize }
  else if d.writeBlockSize < d.readBlockSize then .ok { d with writeBlockSize := d.readBlockSize }
  else if d.readBlockSize = 0 then .error .divides
  else if d.writeBlockSize.tmod d.readBlockSize ≠ 0 then .error .rejected
  else .ok d

/-- `cache_size_` is an `int`. -/
def setCacheSize (p : DiskParameters) (d : DiskSettings) : DiskSettings :=
  if p.cacheSize ≠ -1 then { d with cacheSize := p.cacheSize.bmod (2 ^ 32) } else d

/-- A setting that must be greater than zero. -/
def setPositive (value : Int) (d d' : DiskSettings) : Except Fault DiskSettings :=
  if value = -1 then .ok d else if value ≤ 0 then .error .rejected else .ok d'

def setBlocksPerSegment (p : DiskParameters) (d : DiskSettings) : Except Fault DiskSettings :=
  setPositive p.blocksPerSegment d { d with blocksPerSegment := p.blocksPerSegment }

def setReadThreshold (p : DiskParameters) (d : DiskSettings) : Except Fault DiskSettings :=
  setPositive p.readThreshold d { d with readThreshold := p.readThreshold }

def setWriteThreshold (p : DiskParameters) (d : DiskSettings) : Except Fault DiskSettings :=
  setPositive p.writeThreshold d { d with writeThreshold := p.writeThreshold }

def setSegmentSize (p : DiskParameters) (d : DiskSettings) : Except Fault DiskSettings :=
  if p.segmentSize = -1 then .ok d
  else if p.segmentSize.tmod kSectorSize ≠ 0 then .error .rejected
  else .ok { d with segmentSize := p.segmentSize.tdiv kSectorSize }

/-- A queue of 150% of the blocks that fit in the cache of the disk. -/
def setQueueSize (p : DiskParameters) (d : DiskSettings) : Except Fault DiskSettings :=
  if d.writeBlockSize = 0 then .error .divides
  else .ok { d with
    nonDestructive := p.nonDestructive
    queueSize := ((d.cacheSize.tdiv d.writeBlockSize) * 3).tdiv 2 }

/-- `DiskThread::SetParameters` -/
def setParameters (p : DiskParameters) (d : DiskSettings) : Except Fault DiskSettings := do
  let d ← d.setReadBlockSize p
  let d ← d.setWriteBlockSize p
  let d ← (d.setCacheSize p).setBlocksPerSegment p
  let d ← d.setReadThreshold p
  let d ← d.setWriteThreshold p
  let d ← d.setSegmentSize p
  d.setQueueSize p

end DiskSettings

/-- The block size for reading that a new disk thread gets. -/
def DiskParameters.read (p : DiskParameters) : Int :=
  if p.readBlockSize = -1 then kSectorSize else p.readBlockSize

/-- The parameters that `SetParameters` of a new disk thread refuses: a block size for reading or
writing that is no multiple of a sector, or, when no division by zero comes first, a block size for
writing that is no multiple of the one for reading, a number that is not positive, or a segment size
that is no multiple of a sector. -/
def DiskParameters.Rejected (p : DiskParameters) : Prop :=
  ¬ kSectorSize ∣ p.read ∨ (p.writeBlockSize ≠ -1 ∧ ¬ kSectorSize ∣ p.writeBlockSize) ∨
  p.read ≠ 0 ∧
    ((p.writeBlockSize ≠ -1 ∧ ¬ p.read ∣ p.writeBlockSize) ∨
    (p.writeBlockSize = -1 ∧ p.read ≤ kSectorSize ∧ ¬ p.read ∣ kSectorSize) ∨
    (p.blocksPerSegment ≠ -1 ∧ p.blocksPerSegment ≤ 0) ∨
    (p.readThreshold ≠ -1 ∧ p.readThreshold ≤ 0) ∨
    (p.writeThreshold ≠ -1 ∧ p.writeThreshold ≤ 0) ∨
    (p.segmentSize ≠ -1 ∧ ¬ kSectorSize ∣ p.segmentSize))

section Rejection

variable {α β : Type} {C C' : Prop}

/-- A check that refuses if and only if `C`. -/
def Refuses (C : Prop) (x : Except Fault α) : Prop :=
  (C ∧ x = .error .rejected) ∨ (¬ C ∧ ∃ a, x = .ok a)

theorem Refuses.bind {x : Except Fault α} {f : α → Except Fault β} (hx : Refuses C x)
    (hf : ∀ a, f a = .error .rejected ↔ C') : (x >>= f) = .error .rejected ↔ C ∨ C' := by
  rcases hx with ⟨hC, rfl⟩ | ⟨hC, a, rfl⟩
  · exact iff_of_true rfl (Or.inl hC)
  · exact (hf a).trans (or_iff_right hC).symm

theorem refuses_setPositive (value : Int) (d d' : DiskSettings) :
    Refuses (value ≠ -1 ∧ value ≤ 0) (DiskSettings.setPositive value d d') := by
  unfold DiskSettings.setPositive
  split_ifs with hset hpos
  · exact Or.inr ⟨fun h => h.1 hset, d, rfl⟩
  · exact Or.inl ⟨⟨hset, hpos⟩, rfl⟩
  · exact Or.inr ⟨fun h => hpos h.2, d', rfl⟩

theorem refuses_setBlocksPerSegment (p : DiskParameters) (d : DiskSettings) :
    Refuses (p.blocksPerSegment ≠ -1 ∧ p.blocksPerSegment ≤ 0) (d.setBlocksPerSegment p) :=
  refuses_setPositive ..

theorem refuses_setReadThreshold (p : DiskParameters) (d : DiskSettings) :
    Refuses (p.readThreshold ≠ -1 ∧ p.readThreshold ≤ 0) (d.setReadThreshold p) :=
  refuses_setPositive ..

theorem refuses_setWriteThreshold (p : DiskParameters) (d : DiskSettings) :
    Refuses (p.writeThreshold ≠ -1 ∧ p.writeThreshold ≤ 0) (d.setWriteThreshold p) :=
  refuses_setPositive ..

theorem refuses_setSegmentSize (p : DiskParameters) (d : DiskSettings) :
    Refuses (p.segmentSize ≠ -1 ∧ ¬ kSectorSize ∣ p.segmentSize) (d.setSegmentSize p) := by
  unfold DiskSettings.setSegmentSize
  split_ifs with hset hsector
  · exact Or.inr ⟨fun h => h.1 hset, d, rfl⟩
  · exact Or.inl ⟨⟨hset, mt Int.tmod_eq_zero_of_dvd hsector⟩, rfl⟩
  · exact Or.inr ⟨fun h => h.2 (Int.dvd_of_tmod_eq_zero (not_not.mp hsector)), _, rfl⟩

theorem setQueueSize_ne_rejected (p : DiskParameters) (d : DiskSettings) :
    d.setQueueSize p = .error .rejected ↔ False := by
  unfold DiskSettings.setQueueSize
  split <;> simp

/-- The first check leaves the block size for reading. -/
theorem setReadBlockSize_new (p : DiskParameters) :
    (¬ kSectorSize ∣ p.read ∧ DiskSettings.new.setReadBlockSize p = .error .rejected) ∨
    (kSectorSize ∣ p.read ∧
      DiskSettings.new.setReadBlockSize p = .ok { DiskSettings.new with readBlockSize := p.read }) := by
  unfold DiskSettings.setReadBlockSize DiskParameters.read
  split_ifs with hset hsector
  · exact Or.inr ⟨dvd_rfl, rfl⟩
  · exact Or.inl ⟨mt Int.tmod_eq_zero_of_dvd hsector, rfl⟩
  · exact Or.inr ⟨Int.dvd_of_tmod_eq_zero (not_not.mp hsector), rfl⟩

/-- The second check refuses, divides by zero, or leaves a block size for writing. -/
theorem setWriteBlockSize_cases (p : DiskParameters) (d : DiskSettings)
    (hwrite : d.writeBlockSize = kSectorSize) :
    ((p.writeBlockSize ≠ -1 ∧ ¬ kSectorSize ∣ p.writeBlockSize) ∧
      d.setWriteBlockSize p = .error .rejected) ∨
    ¬ (p.writeBlockSize ≠ -1 ∧ ¬ kSectorSize ∣ p.writeBlockSize) ∧
      ((d.readBlockSize = 0 ∧ d.setWriteBlockSize p = .error .divides) ∨
      (d.readBlockSize ≠ 0 ∧ Refuses ((p.writeBlockSize ≠ -1 ∧ ¬ d.readBlockSize ∣ p.writeBlockSize) ∨
        (p.writeBlockSize = -1 ∧ d.readBlockSize ≤ kSectorSize ∧ ¬ d.readBlockSize ∣ kSectorSize))
        (d.setWriteBlockSize p))) := by
  unfold DiskSettings.setWriteBlockSize
  rw [hwrite]
  split_ifs with hset hsector hzero hread hlt hzero hread
  · exact Or.inl ⟨⟨hset, mt Int.tmod_eq_zero_of_dvd hsector⟩, rfl⟩
  all_goals refine Or.inr ⟨?_, ?_⟩
  · exact fun h => h.2 (Int.dvd_of_tmod_eq_zero (not_not.mp hsector))
  · exact Or.inl ⟨hzero, rfl⟩
  · exact fun h => h.2 (Int.dvd_of_tmod_eq_zero (not_not.mp hsector))
  · exact Or.inr ⟨hzero, Or.inl ⟨Or.inl ⟨hset, mt Int.tmod_eq_zero_of_dvd hread⟩, rfl⟩⟩
  · exact fun h => h.2 (Int.dvd_of_tmod_eq_zero (not_not.mp hsector))
  · refine Or.inr ⟨hzero, Or.inr ⟨?_, _, rfl⟩⟩
    rintro (h | h)
    · exact h.2 (Int.dvd_of_tmod_eq_zero (not_not.mp hread))
    · exact hset h.1
  · exact fun h => hset h.1
  · have hpos : d.readBlockSize ≠ 0 := by
      unfold kSectorSize at hlt
      omega
    refine Or.inr ⟨hpos, Or.inr ⟨?_, _, rfl⟩⟩
    rintro (h | h)
    · exact hset h.1
    · exact absurd hlt (not_lt.mpr h.2.1)
  · exact fun h => hset h.1
  · exact Or.inl ⟨hzero, rfl⟩
  · exact fun h => hset h.1
  · exact Or.inr ⟨hzero, Or.inl ⟨Or.inr ⟨not_not.mp hset, not_lt.mp hlt, mt Int.tmod_eq_zero_of_dvd hread⟩, rfl⟩⟩
  · exact fun h => hset h.1
  · refine Or.inr ⟨hzero, Or.inr ⟨?_, _, rfl⟩⟩
    rintro (h | h)
    · exact hset h.1
    · exact h.2.2 (Int.dvd_of_tmod_eq_zero (not_not.mp hread))

/-- **The parameters that are refused.** -/
theorem setParameters_rejected (p : DiskParameters) :
    DiskSettings.new.setParameters p = .error .rejected ↔ p.Rejected := by
  -- the checks that do not look at the block sizes
  have hrest (d : DiskSettings) := (refuses_setBlocksPerSegment p (d.setCacheSize p)).bind fun d =>
    (refuses_setReadThreshold p d).bind fun d => (refuses_setWriteThreshold p d).bind fun d =>
      (refuses_setSegmentSize p d).bind fun d => setQueueSize_ne_rejected p d
  unfold DiskSettings.setParameters DiskParameters.Rejected
  rcases setReadBlockSize_new p with ⟨hread, hx⟩ | ⟨hread, hx⟩
  · rw [hx]
    exact iff_of_true rfl (Or.inl hread)
  rw [hx, or_iff_right (not_not.mpr hread)]
  rcases setWriteBlockSize_cases p { DiskSettings.new with readBlockSize := p.read } rfl with
    ⟨hsector, hy⟩ | ⟨hsector, ⟨hzero, hy⟩ | ⟨hzero, hy⟩⟩
  · exact iff_of_true (by simp only [bind, Except.bind, hy]) (Or.inl hsector)
  · rw [or_iff_right hsector]
    refine iff_of_false ?_ fun h => h.1 hzero
    simp [bind, Except.bind, hy]
  · rw [or_iff_right hsector, and_iff_right hzero]
    have hall := hy.bind hrest
    simp only [or_false, or_assoc] at hall
    exact hall

end Rejection

/-! ## Creating the workers -/

/-- The `WorkerStatus` objects: the two of `Sat`, and one for each slave of a listening thread. -/
inductive StatusId where
  | powerSpike
  | continuous
  | child (n : Nat)
  deriving DecidableEq

/-- `enum ThreadType` -/
inductive ThreadType where
  | memory
  | fileIo
  | netIo
  | netSlave
  | check
  | invert
  | disk
  | randomDisk
  | cpu
  | error
  | cc
  | cpuFreq
  deriving DecidableEq

/-- The keys of `workers_map_` in their order. -/
def ThreadType.all : List ThreadType :=
  [.memory, .fileIo, .netIo, .netSlave, .check, .invert, .disk, .randomDisk, .cpu, .error, .cc, .cpuFreq]

/-- A worker. The slaves of a listening thread are in no vector of the map. -/
structure Worker where
  threadNum : Nat
  type : Option ThreadType
  status : StatusId
  deriving DecidableEq

/-- What `InitializeThreads` changes. A vector that is not in the map is empty. -/
structure Boot where
  numWorkers : StatusId → Int
  totalThreads : Nat
  workersMap : ThreadType → List Worker

/-- Before `InitializeThreads`; the threads of the fill have had numbers of their own. -/
def Boot.start (totalThreads : Nat) : Boot := ⟨fun _ => 0, totalThreads, fun _ => []⟩

/-- The options that `InitializeThreads` looks at. A loop up to a negative count makes no pass. -/
structure Config where
  errorPoll : Bool
  monitorMode : Bool
  memoryThreads : Int
  fileThreads : Nat
  listenThreads : Int
  netThreads : Nat
  checkThreads : Int
  invertThreads : Int
  diskThreads : Nat
  randomThreads : Int
  cpuStressThreads : Int
  ccTest : Bool
  cpuCount : Nat
  cpuFreqTest : Bool
  disk : DiskParameters

namespace Boot

/-- `InitThread(total_threads_++, this, os_, patternlist_, status)`, with `AddWorkers(1)`. -/
def initThread (b : Boot) (type : ThreadType) (status : StatusId) : Worker × Boot :=
  (⟨b.totalThreads, some type, status⟩,
    { b with
      numWorkers := Function.update b.numWorkers status (b.numWorkers status + 1)
      totalThreads := b.totalThreads + 1 })

def insert (b : Boot) (type : ThreadType) (w : Worker) : Boot :=
  { b with workersMap := Function.update b.workersMap type (b.workersMap type ++ [w]) }

/-- A worker of a type that is always kept. -/
def addThread (type : ThreadType) (status : StatusId) (b : Boot) : Boot :=
  (b.initThread type status).2.insert type (b.initThread type status).1

/-- A disk thread, which is deleted when its parameters are refused. -/
def addDiskThread (type : ThreadType) (p : DiskParameters) (b : Boot) : Option Boot :=
  match DiskSettings.new.setParameters p with
  | .ok _ => some ((b.initThread type .powerSpike).2.insert type (b.initThread type .powerSpike).1)
  | .error .rejected => some (b.initThread type .powerSpike).2
  | .error .divides => none

/-- The loop over the disks, each with its random threads. -/
def addDiskThreads (c : Config) (b : Boot) : Option Boot :=
  forUpTo c.diskThreads (fun _ b =>
    forUpTo c.randomThreads.toNat (fun _ b => b.bind (addDiskThread .randomDisk c.disk))
      (b.bind (addDiskThread .disk c.disk))) (some b)

/-- The workers that come before the disk threads. -/
def addFirstThreads (c : Config) (b : Boot) : Boot :=
  let b := forUpTo c.memoryThreads.toNat (fun _ => addThread .memory .powerSpike) b
  let b := forUpTo c.fileThreads (fun _ => addThread .fileIo .powerSpike) b
  let b := if 0 < c.listenThreads then addThread .netSlave .continuous b else b
  let b := forUpTo c.netThreads (fun _ => addThread .netIo .continuous) b
  let b := forUpTo c.checkThreads.toNat (fun _ => addThread .check .continuous) b
  forUpTo c.invertThreads.toNat (fun _ => addThread .invert .continuous) b

/-- The workers that come after the disk threads. -/
def addLastThreads (c : Config) (b : Boot) : Boot :=
  let b := forUpTo c.cpuStressThreads.toNat (fun _ => addThread .cpu .continuous) b
  let b := if c.ccTest then forUpTo c.cpuCount (fun _ => addThread .cc .continuous) b else b
  if c.cpuFreqTest then addThread .cpuFreq .powerSpike b else b

/-- `Sat::InitializeThreads` -/
def initializeThreads (c : Config) (b : Boot) : Option Boot :=
  let b := if c.errorPoll then addThread .error .continuous b else b
  if c.monitorMode then some b else ((addFirstThreads c b).addDiskThreads c).map (addLastThreads c)

/-- The workers in the order of the map. -/
def workers (b : Boot) : List Worker := ThreadType.all.flatMap b.workersMap

end Boot

/-! ## Spawning them -/

/-- `SpawnThreads` and what may happen meanwhile and afterwards: the workers still to be spawned,
those that run and have not called `RemoveSelf`, the counts of the status objects and of their
barriers, and the number of slaves. -/
structure Spawning where
  todo : List Worker
  live : List Worker
  numWorkers : StatusId → Int
  barrier : StatusId → Int
  children : Nat

namespace Spawning

/-- The two calls of `Initialize`. -/
def start (b : Boot) : Spawning where
  todo := b.workers
  live := []
  numWorkers := b.numWorkers
  barrier id := b.numWorkers id + 1
  children := 0

/-- `WorkerStatus::RemoveSelf`: the barrier gets the count of before. -/
def removeSelf (s : Spawning) (id : StatusId) : Spawning :=
  { s with
    barrier := Function.update s.barrier id (s.numWorkers id)
    numWorkers := Function.update s.numWorkers id (s.numWorkers id - 1) }

/-- `NetworkListenThread::SpawnSlave`, when the thread can be created; else the status object is
destroyed again. -/
def spawnSlave (s : Spawning) (threadNum : Nat) : Spawning where
  todo := s.todo
  live := ⟨threadNum, none, .child s.children⟩ :: s.live
  numWorkers := Function.update s.numWorkers (.child s.children) 1
  barrier := Function.update s.barrier (.child s.children) 2
  children := s.children + 1

/-- One step: a thread is created or cannot be created, a running worker ends, a listening thread
has a connection. -/
inductive Step : Spawning → Spawning → Prop
  | spawned {s : Spawning} {w : Worker} {rest : List Worker} (htodo : s.todo = w :: rest) :
      Step s { s with todo := rest, live := w :: s.live }
  | failed {s : Spawning} {w : Worker} {rest : List Worker} (htodo : s.todo = w :: rest) :
      Step s (removeSelf { s with todo := rest } w.status)
  | ended {s : Spawning} {w : Worker} (hlive : w ∈ s.live) :
      Step s (removeSelf { s with live := s.live.erase w } w.status)
  | slave {s : Spawning} {w : Worker} (hlive : w ∈ s.live) (htype : w.type = some .netSlave)
      (threadNum : Nat) : Step s (s.spawnSlave threadNum)

/-- The status objects that exist. -/
def Exists (s : Spawning) : StatusId → Prop
  | .child n => n < s.children
  | _ => True

/-- The workers that run and are counted by a status object. -/
def running (s : Spawning) (id : StatusId) : Nat := s.live.countP (·.status = id)

/-- Every status object counts the workers that run, and its barrier is for them and the control
thread. -/
def Balanced (s : Spawning) : Prop :=
  ∀ id, s.Exists id → s.numWorkers id = s.running id ∧ s.barrier id = s.running id + 1

end Spawning

/-- A state after `InitializeThreads` and `SpawnThreads`. -/
def AfterSpawn (c : Config) (totalThreads : Nat) (s : Spawning) : Prop :=
  ∃ b, (Boot.start totalThreads).initializeThreads c = some b ∧
    Relation.ReflTransGen Spawning.Step (Spawning.start b) s ∧ s.todo = []

/-! ## Accounting -/

section Accounting

variable {b : Boot} {lost : Nat}

theorem flatMap_update_perm {ι α : Type} [DecidableEq ι] {m : ι → List α} {i : ι} {a : α}
    {l : List ι} (hl : l.Nodup) (hi : i ∈ l) :
    (l.flatMap (Function.update m i (m i ++ [a]))).Perm (a :: l.flatMap m) := by
  induction l with
  | nil => cases hi
  | cons j l ih =>
      obtain ⟨hj, hl⟩ := List.nodup_cons.mp hl
      simp only [List.flatMap_cons]
      by_cases hij : j = i
      · subst hij
        have hrest : l.flatMap (Function.update m j (m j ++ [a])) = l.flatMap m := by
          apply List.flatMap_congr
          intro k hk
          apply Function.update_of_ne
          rintro rfl
          exact hj hk
        rw [hrest, Function.update_self, List.append_assoc, List.singleton_append]
        exact List.perm_middle
      · rw [Function.update_of_ne hij]
        have htail := ih hl ((List.mem_cons.mp hi).resolve_left (Ne.symm hij))
        exact (htail.append_left _).trans List.perm_middle

theorem ThreadType.nodup_all : ThreadType.all.Nodup := by decide

theorem ThreadType.mem_all (type : ThreadType) : type ∈ ThreadType.all := by
  cases type <;> decide

theorem Boot.workers_insert (b : Boot) (type : ThreadType) (w : Worker) :
    (b.insert type w).workers.Perm (w :: b.workers) :=
  flatMap_update_perm ThreadType.nodup_all (ThreadType.mem_all type)

/-- The workers of the map are counted, and on the first status object `lost` more. -/
structure Boot.Accounts (lost : Nat) (b : Boot) : Prop where
  count : ∀ id, b.numWorkers id =
    (b.workers.countP (·.status = id) : Int) + if id = .powerSpike then (lost : Int) else 0
  status : ∀ w ∈ b.workers, ∀ n, w.status ≠ .child n

theorem Boot.accounts_start (totalThreads : Nat) : (Boot.start totalThreads).Accounts 0 where
  count id := by
    have hworkers : (Boot.start totalThreads).workers = [] := rfl
    rw [hworkers]
    split <;> rfl
  status w hw := by cases hw

/-- A worker that is counted and kept. -/
theorem Boot.Accounts.addThread (h : b.Accounts lost) (type : ThreadType) {s : StatusId}
    (hs : ∀ n, s ≠ .child n) : (Boot.addThread type s b).Accounts lost where
  count id := by
    unfold Boot.addThread
    rw [(Boot.workers_insert _ type _).countP_eq, List.countP_cons]
    change Function.update b.numWorkers s (b.numWorkers s + 1) id =
      ((b.workers.countP (·.status = id) + if decide (s = id) = true then 1 else 0 : Nat) : Int) + _
    by_cases hid : id = s
    · subst hid
      rw [Function.update_self, h.count, if_pos (decide_eq_true rfl)]
      push_cast
      ring
    · have hother : ¬ decide (s = id) = true := by simpa using Ne.symm hid
      rw [Function.update_of_ne hid, h.count, if_neg hother, Nat.add_zero]
  status w hw := by
    rcases List.mem_cons.mp ((Boot.workers_insert _ type _).mem_iff.mp hw) with rfl | hw
    · exact hs
    · exact h.status w hw

/-- A disk thread that is counted and deleted. -/
theorem Boot.Accounts.initThread (h : b.Accounts lost) (type : ThreadType) :
    (b.initThread type .powerSpike).2.Accounts (lost + 1) where
  count id := by
    change Function.update b.numWorkers .powerSpike (b.numWorkers .powerSpike + 1) id =
      (b.workers.countP (·.status = id) : Int) + _
    by_cases hid : id = .powerSpike
    · subst hid
      rw [Function.update_self, h.count, if_pos rfl, if_pos rfl]
      push_cast
      ring
    · rw [Function.update_of_ne hid, h.count, if_neg hid, if_neg hid]
  status := h.status

theorem Boot.Accounts.loop (h : b.Accounts lost) (n : Nat) (type : ThreadType) (status : StatusId)
    (hstatus : ∀ n, status ≠ .child n) :
    (forUpTo n (fun _ => Boot.addThread type status) b).Accounts lost :=
  forUpTo_inv (fun _ (b : Boot) => b.Accounts lost) h fun _ _ _ hb => hb.addThread type hstatus

theorem Boot.Accounts.ite {b' : Boot} {q : Prop} [Decidable q] (h : b.Accounts lost)
    (h' : b'.Accounts lost) : (if q then b' else b).Accounts lost := by
  split
  · exact h'
  · exact h

theorem Boot.Accounts.addFirstThreads (h : b.Accounts lost) (c : Config) :
    (b.addFirstThreads c).Accounts lost := by
  have hmemory := h.loop c.memoryThreads.toNat .memory .powerSpike (by simp)
  have hfile := hmemory.loop c.fileThreads .fileIo .powerSpike (by simp)
  have hlisten := hfile.ite (q := 0 < c.listenThreads) (hfile.addThread .netSlave (s := .continuous) (by simp))
  have hnet := hlisten.loop c.netThreads .netIo .continuous (by simp)
  have hcheck := hnet.loop c.checkThreads.toNat .check .continuous (by simp)
  exact hcheck.loop c.invertThreads.toNat .invert .continuous (by simp)

theorem Boot.Accounts.addLastThreads (h : b.Accounts lost) (c : Config) :
    (b.addLastThreads c).Accounts lost := by
  have hcpu := h.loop c.cpuStressThreads.toNat .cpu .continuous (by simp)
  have hcc := hcpu.ite (q := c.ccTest = true) (hcpu.loop c.cpuCount .cc .continuous (by simp))
  exact hcc.ite (hcc.addThread .cpuFreq (by simp))

/-- The number of disk threads and their random threads. -/
def Config.diskPool (c : Config) : Nat := c.diskThreads * (c.randomThreads.toNat + 1)

theorem Boot.Accounts.addDiskThread (h : b.Accounts lost) {type : ThreadType} {p : DiskParameters}
    {b' : Boot} (hb' : b.addDiskThread type p = some b') :
    (p.Rejected → b'.Accounts (lost + 1)) ∧ (¬ p.Rejected → b'.Accounts lost) := by
  rw [← setParameters_rejected]
  unfold Boot.addDiskThread at hb'
  split at hb'
  · next d hd =>
    rw [← Option.some.inj hb', hd]
    exact ⟨fun h => (by cases h), fun _ => h.addThread type (by simp)⟩
  · next hd =>
    rw [← Option.some.inj hb', hd]
    exact ⟨fun _ => h.initThread type, fun h => absurd rfl h⟩
  · cases hb'

/-- A loop that keeps a property of what it leaves, if it leaves anything. -/
theorem forUpTo_bind {P : Nat → Boot → Prop} {n : Nat} {body : Boot → Option Boot} {x : Option Boot}
    {b' : Boot} (hx : ∀ b, x = some b → P 0 b)
    (hbody : ∀ i b b', P i b → body b = some b' → P (i + 1) b')
    (hb' : forUpTo n (fun _ b => b.bind body) x = some b') : P n b' := by
  refine forUpTo_inv (fun i (y : Option Boot) => ∀ b, y = some b → P i b) hx ?_ b' hb'
  intro i hi y hy b hb
  obtain ⟨a, ha, hab⟩ := Option.bind_eq_some_iff.mp hb
  exact hbody i a b (hy a ha) hab

/-- When each disk thread adds `k` to what is lost, so do all of them. -/
theorem Boot.Accounts.addDiskThreads (h : b.Accounts lost) {c : Config} {b' : Boot} {k : Nat}
    (hk : ∀ {type : ThreadType} {lost : Nat} {b b' : Boot}, b.Accounts lost →
      b.addDiskThread type c.disk = some b' → b'.Accounts (lost + k))
    (hb' : b.addDiskThreads c = some b') : b'.Accounts (lost + c.diskPool * k) := by
  refine forUpTo_inv (fun i (y : Option Boot) =>
    ∀ b, y = some b → b.Accounts (lost + i * (c.randomThreads.toNat + 1) * k)) ?_ ?_ b' hb'
  · intro b₀ hb₀
    rw [← Option.some.inj hb₀, Nat.zero_mul, Nat.zero_mul]
    exact h
  · intro i hi y hy b₁ hb₁
    have hloop := forUpTo_bind
      (P := fun j b => b.Accounts (lost + i * (c.randomThreads.toNat + 1) * k + k + j * k)) ?_
      (fun j b b' hb hbb' => ?_) hb₁
    · have hsum : lost + (i + 1) * (c.randomThreads.toNat + 1) * k =
          lost + i * (c.randomThreads.toNat + 1) * k + k + c.randomThreads.toNat * k := by ring
      rw [hsum]
      exact hloop
    · intro b hb
      obtain ⟨a, ha, hab⟩ := Option.bind_eq_some_iff.mp hb
      rw [Nat.zero_mul]
      exact hk (hy a ha) hab
    · rw [Nat.succ_mul, ← Nat.add_assoc]
      exact hk hb hbb'

/-- **What `InitializeThreads` leaves counted.** -/
theorem Boot.accounts_initializeThreads {c : Config} {totalThreads : Nat} {b : Boot}
    (hb : (Boot.start totalThreads).initializeThreads c = some b) :
    ((c.monitorMode = true ∨ ¬ c.disk.Rejected) → b.Accounts 0) ∧
      (c.monitorMode = false → c.disk.Rejected → b.Accounts c.diskPool) := by
  have hstart := Boot.accounts_start totalThreads
  have herror := hstart.ite (q := c.errorPoll = true) (hstart.addThread .error (s := .continuous) (by simp))
  unfold Boot.initializeThreads at hb
  dsimp only at hb
  split at hb
  · next hmonitor =>
    rw [← Option.some.inj hb]
    exact ⟨fun _ => herror, fun hno => by simp [hmonitor] at hno⟩
  · next hmonitor =>
    obtain ⟨b₁, hb₁, hlast⟩ := Option.map_eq_some_iff.mp hb
    have hfirst := herror.addFirstThreads c
    rw [← hlast]
    refine ⟨fun hok => ?_, fun _ hrej => ?_⟩
    · have hdisk := hfirst.addDiskThreads (k := 0)
        (fun h hb' => (h.addDiskThread hb').2 (hok.resolve_left hmonitor)) hb₁
      exact hdisk.addLastThreads c
    · have hdisk := hfirst.addDiskThreads (k := 1) (fun h hb' => (h.addDiskThread hb').1 hrej) hb₁
      rw [Nat.mul_one, Nat.zero_add] at hdisk
      exact hdisk.addLastThreads c

/-- Parameters that are refused do not end the process. -/
theorem Boot.exists_initializeThreads {c : Config} (hrej : c.disk.Rejected) (b : Boot) :
    ∃ b', b.initializeThreads c = some b' := by
  have hdisk (type : ThreadType) (b : Boot) : (b.addDiskThread type c.disk).isSome = true := by
    rw [Boot.addDiskThread, (setParameters_rejected c.disk).mpr hrej]
    rfl
  have hbind (type : ThreadType) {y : Option Boot} (hy : y.isSome = true) :
      (y.bind (Boot.addDiskThread type c.disk)).isSome = true := by
    obtain ⟨b, rfl⟩ := Option.isSome_iff_exists.mp hy
    exact hdisk type b
  have hall (b : Boot) : (b.addDiskThreads c).isSome = true :=
    forUpTo_inv (fun _ (y : Option Boot) => y.isSome = true) rfl fun _ _ _ hy =>
      forUpTo_inv (fun _ (y : Option Boot) => y.isSome = true) (hbind .disk hy) fun _ _ _ hy =>
        hbind .randomDisk hy
  unfold Boot.initializeThreads
  dsimp only
  split
  · exact ⟨_, rfl⟩
  · obtain ⟨b', hb'⟩ := Option.isSome_iff_exists.mp (hall _)
    rw [hb']
    exact ⟨_, rfl⟩

end Accounting

/-! ## The balance after any run -/

namespace Spawning

section Run

variable {s s' : Spawning} {lost : Nat}

/-- A status object counts the workers that run, those still to be spawned and, if it is the first
one, the `lost` ones; its barrier is for one more. -/
structure Accounted (lost : Nat) (s : Spawning) : Prop where
  count : ∀ id, s.numWorkers id = (s.running id : Int) + s.todo.countP (·.status = id) +
    if id = .powerSpike then (lost : Int) else 0
  barrier : ∀ id, s.Exists id → s.barrier id = s.numWorkers id + 1
  todo : ∀ w ∈ s.todo, ∀ n, w.status ≠ .child n
  live : ∀ w ∈ s.live, ∀ n, w.status = .child n → n < s.children

theorem accounted_start {b : Boot} (h : b.Accounts lost) : (start b).Accounted lost where
  count id := by
    change b.numWorkers id = ((0 : Nat) : Int) + b.workers.countP (·.status = id) + _
    rw [h.count, Nat.cast_zero, zero_add]
  barrier id _ := rfl
  todo := h.status
  live w hw := by cases hw

/-- A count and its barrier go down together. -/
theorem Accounted.removeSelf {w : Worker} (h : s.Accounted lost)
    (hcount : ∀ id, (s.running id : Int) + s.todo.countP (·.status = id) =
      (s'.running id : Int) + s'.todo.countP (·.status = id) + if w.status = id then 1 else 0)
    (hnum : s'.numWorkers = s.numWorkers) (hbarrier : s'.barrier = s.barrier)
    (hchildren : s'.children = s.children) (htodo : ∀ w ∈ s'.todo, w ∈ s.todo)
    (hlive : ∀ w ∈ s'.live, w ∈ s.live) : (s'.removeSelf w.status).Accounted lost where
  count id := by
    have hid := hcount id
    change Function.update s'.numWorkers w.status (s'.numWorkers w.status - 1) id =
      (s'.running id : Int) + s'.todo.countP (·.status = id) + _
    rw [hnum]
    by_cases heq : id = w.status
    · subst heq
      rw [if_pos rfl] at hid
      rw [Function.update_self, h.count, hid]
      ring
    · rw [if_neg (Ne.symm heq), add_zero] at hid
      rw [Function.update_of_ne heq, h.count, hid]
  barrier id hid := by
    change Function.update s'.barrier w.status (s'.numWorkers w.status) id =
      Function.update s'.numWorkers w.status (s'.numWorkers w.status - 1) id + 1
    by_cases heq : id = w.status
    · subst heq
      rw [Function.update_self, Function.update_self, sub_add_cancel]
    · rw [Function.update_of_ne heq, Function.update_of_ne heq, hnum, hbarrier]
      refine h.barrier id ?_
      cases id with
      | powerSpike => trivial
      | continuous => trivial
      | child n =>
          have hn : n < s'.children := hid
          rw [hchildren] at hn
          exact hn
  todo v hv := h.todo v (htodo v hv)
  live v hv n hn := hchildren ▸ h.live v (hlive v hv) n hn

/-- One step keeps the account. -/
theorem Accounted.step (h : s.Accounted lost) (hstep : Step s s') : s'.Accounted lost := by
  cases hstep with
  | @spawned w rest htodo =>
      refine ⟨fun id => ?_, h.barrier, fun v hv => h.todo v (by rw [htodo]; exact .tail _ hv), ?_⟩
      · rw [h.count, htodo]
        simp only [running, List.countP_cons]
        push_cast
        ring
      · intro v hv n hn
        rcases List.mem_cons.mp hv with rfl | hv
        · exact absurd hn (h.todo v (by rw [htodo]; exact .head _) n)
        · exact h.live v hv n hn
  | @failed w rest htodo =>
      refine h.removeSelf (fun id => ?_) rfl rfl rfl (fun v hv => by rw [htodo]; exact .tail _ hv)
        fun v hv => hv
      rw [htodo, List.countP_cons]
      simp only [running, decide_eq_true_eq]
      push_cast
      ring
  | @ended w hlive =>
      refine h.removeSelf (fun id => ?_) rfl rfl rfl (fun v hv => hv) fun v => List.mem_of_mem_erase
      have hperm := List.perm_cons_erase hlive
      simp only [running]
      rw [hperm.countP_eq, List.countP_cons]
      simp only [decide_eq_true_eq]
      push_cast
      ring
  | slave hlive htype threadNum =>
      -- no worker that runs is counted by the new object
      have hnone : s.running (.child s.children) = 0 := by
        refine List.countP_eq_zero.mpr fun v hv hv' => ?_
        exact absurd (h.live v hv _ (of_decide_eq_true hv')) (lt_irrefl _)
      have hnone' : s.todo.countP (·.status = .child s.children) = 0 := by
        refine List.countP_eq_zero.mpr fun v hv hv' => ?_
        exact h.todo v hv _ (of_decide_eq_true hv')
      refine ⟨fun id => ?_, fun id hid => ?_, h.todo, ?_⟩
      · change Function.update s.numWorkers (.child s.children) 1 id = ((List.countP _ (_ :: s.live) : Nat) : Int) + _ + _
        by_cases heq : id = .child s.children
        · subst heq
          rw [Function.update_self, List.countP_cons, if_pos (decide_eq_true rfl), if_neg (by simp)]
          change (1 : Int) = ((s.running (.child s.children) + 1 : Nat) : Int) +
            (s.todo.countP (·.status = .child s.children) : Nat) + 0
          rw [hnone, hnone']
          rfl
        · have hother : ¬ decide (StatusId.child s.children = id) = true := by simpa using Ne.symm heq
          rw [Function.update_of_ne heq, List.countP_cons, if_neg hother, Nat.add_zero]
          exact h.count id
      · change Function.update s.barrier (.child s.children) 2 id =
          Function.update s.numWorkers (.child s.children) 1 id + 1
        by_cases heq : id = .child s.children
        · subst heq
          rw [Function.update_self, Function.update_self]
          rfl
        · rw [Function.update_of_ne heq, Function.update_of_ne heq]
          refine h.barrier id ?_
          cases id with
          | powerSpike => trivial
          | continuous => trivial
          | child n =>
              have hn : n < s.children + 1 := hid
              have hne : n ≠ s.children := fun hn => heq (by rw [hn])
              exact (Nat.lt_succ_iff_lt_or_eq.mp hn).resolve_right hne
      · intro v hv n hn
        rcases List.mem_cons.mp hv with rfl | hv
        · cases hn
          exact Nat.lt_succ_self s.children
        · exact Nat.lt_succ_of_lt (h.live v hv n hn)

theorem Accounted.steps (h : s.Accounted lost) (hsteps : Relation.ReflTransGen Step s s') :
    s'.Accounted lost := by
  induction hsteps with
  | refl => exact h
  | tail _ hstep ih => exact ih.step hstep

/-- When every worker has been spawned or not, the balance is off by the lost ones. -/
theorem Accounted.balanced_iff (h : s.Accounted lost) (htodo : s.todo = []) :
    s.Balanced ↔ lost = 0 := by
  have hcount (id : StatusId) : s.numWorkers id = (s.running id : Int) +
      if id = .powerSpike then (lost : Int) else 0 := by
    rw [h.count, htodo]
    simp
  refine ⟨fun hbal => ?_, ?_⟩
  · have hpower := hcount .powerSpike
    rw [(hbal .powerSpike trivial).1, if_pos rfl] at hpower
    omega
  · rintro rfl id hid
    have hnum : s.numWorkers id = s.running id := by
      rw [hcount]
      simp
    exact ⟨hnum, by rw [h.barrier id hid, hnum]⟩

/-- Every thread may be created. -/
theorem exists_spawned (s : Spawning) :
    ∃ s', Relation.ReflTransGen Step s s' ∧ s'.todo = [] := by
  obtain ⟨todo, live, numWorkers, barrier, children⟩ := s
  induction todo generalizing live with
  | nil => exact ⟨_, .refl, rfl⟩
  | cons w rest ih =>
      obtain ⟨s', hsteps, hs'⟩ := ih (w :: live)
      exact ⟨s', .head (.spawned rfl) hsteps, hs'⟩

end Run

end Spawning

/-- After the workers have been created and spawned, whichever threads could not be created and
whichever workers have ended since, every status object counts the workers that run, if and only if
no disk thread was deleted for its parameters. -/
theorem registration_balance (c : Config) (totalThreads : Nat) :
    (∀ s, AfterSpawn c totalThreads s → s.Balanced) ↔
      c.monitorMode = true ∨ c.diskThreads = 0 ∨ ¬ c.disk.Rejected := by
  by_cases hok : c.monitorMode = true ∨ ¬ c.disk.Rejected
  · refine iff_of_true ?_ (hok.imp_right Or.inr)
    rintro s ⟨b, hb, hsteps, htodo⟩
    have hstart := Spawning.accounted_start ((Boot.accounts_initializeThreads hb).1 hok)
    exact ((hstart.steps hsteps).balanced_iff htodo).mpr rfl
  · obtain ⟨hmonitor, hrej⟩ := not_or.mp hok
    rw [not_not] at hrej
    have hpool : c.diskPool = 0 ↔ c.diskThreads = 0 := by
      simp [Config.diskPool]
    have hlost {b : Boot} (hb : (Boot.start totalThreads).initializeThreads c = some b) :=
      Spawning.accounted_start ((Boot.accounts_initializeThreads hb).2 (by simpa using hmonitor) hrej)
    rw [or_iff_right hmonitor, or_iff_left (not_not.mpr hrej), ← hpool]
    refine ⟨fun hall => ?_, ?_⟩
    · obtain ⟨b, hb⟩ := Boot.exists_initializeThreads hrej (Boot.start totalThreads)
      obtain ⟨s, hsteps, htodo⟩ := Spawning.exists_spawned (Spawning.start b)
      exact (((hlost hb).steps hsteps).balanced_iff htodo).mp (hall s ⟨b, hb, hsteps, htodo⟩)
    · rintro hzero s ⟨b, hb, hsteps, htodo⟩
      exact (((hlost hb).steps hsteps).balanced_iff htodo).mpr hzero

/-- One disk with a block size of 511 and four memory threads. -/
def oddBlockSize : Config where
  errorPoll := true
  monitorMode := false
  memoryThreads := 4
  fileThreads := 0
  listenThreads := 0
  netThreads := 0
  checkThreads := 0
  invertThreads := 0
  diskThreads := 1
  randomThreads := 0
  cpuStressThreads := 0
  ccTest := false
  cpuCount := 4
  cpuFreqTest := false
  disk := ⟨511, -1, -1, -1, -1, -1, -1, 0⟩

/-- The disk thread is deleted, the four memory threads run, and the barrier is for six: one more
than these and the control thread. -/
theorem deleted_thread_counted : ∃ s, AfterSpawn oddBlockSize 0 s ∧ s.running .powerSpike = 4 ∧
    s.numWorkers .powerSpike = 5 ∧ s.barrier .powerSpike = 6 ∧ ¬ s.Balanced := by
  -- the memory threads, then the thread for the errors
  have hsteps {b : Boot} {w₁ w₂ w₃ w₄ w₅ : Worker} (hb : b.workers = [w₁, w₂, w₃, w₄, w₅]) :
      Relation.ReflTransGen Spawning.Step (Spawning.start b)
        { Spawning.start b with todo := [], live := [w₅, w₄, w₃, w₂, w₁] } :=
    .head (.spawned hb) (.head (.spawned rfl) (.head (.spawned rfl) (.head (.spawned rfl)
      (.head (.spawned rfl) .refl))))
  refine ⟨_, ⟨_, rfl, hsteps rfl, rfl⟩, rfl, rfl, rfl, ?_⟩
  intro hbal
  have hpower : (5 : Int) = (4 : Nat) := (hbal .powerSpike trivial).1
  omega

end StressAppTest.Control
