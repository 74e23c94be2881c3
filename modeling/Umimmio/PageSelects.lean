import Umimmio.Lib.Latch
import Umimmio.Lib.Trace
import Umimmio.Transport.PagedI2c

namespace Umimmio
open Effects Bytes Latch
set_option autoImplicit true

variable {σ : Type}

/-- A frame on the bus, the size of its receive span, and whether the transport takes it for
successful. -/
structure Frame where
  site : Site
  deviceAddr : Byte
  tx : List Byte
  rxSize : Nat := 0
  ok : Bool
  deriving DecidableEq

def DriverType.frame? (driver : DriverType) : (c : DriverCmd) × c.Resp → Option Frame
  | ⟨.i2cWrite site deviceAddr tx, ok⟩ => some ⟨site, deviceAddr, tx, 0, driver.voidWrite || ok⟩
  | ⟨.i2cWriteRead deviceAddr tx rx, reply⟩ =>
    some ⟨.read, deviceAddr, tx, rx.length, driver.voidWriteRead || reply.1⟩
  | _ => none

inductive PagedCall
  | rawWrite (regAddr : BitVec 16) (data : List Byte)
  | rawRead (regAddr : BitVec 16) (data : List Byte)
  | invalidatePageCache

/-- The page that the chip is known to be on. -/
def PageCache.page? (c : PageCache) : Option Byte :=
  if c.pageCacheValid then some c.currentPage else none

/-- What a transport without a cache does: it puts frames on the bus, or is told to forget. -/
inductive Entry
  | frame (f : Frame)
  | invalidated

def Entry.frame? : Entry → Option Frame
  | .frame f => some f
  | .invalidated => none

/-- A successful select loads the page that it names; an invalidation clears it. -/
def Entry.effect : Entry → Effect Byte
  | .frame f => if f.site = .select ∧ f.ok then .load (f.tx.getLastD 0) else .keep
  | .invalidated => .clear

namespace PagedI2cTransport

variable (T : PagedI2cTransport)

def runCall : PagedCall → PageCache → DriverProg PageCache
  | .rawWrite regAddr data, c => Prod.snd <$> T.rawWrite regAddr data c
  | .rawRead regAddr data, c => Prod.snd <$> T.rawRead regAddr data c
  | .invalidatePageCache, c => pure c.invalidate

def runCalls : List PagedCall → PageCache → DriverProg PageCache
  | [], c => pure c
  | k :: ks, c => T.runCall k c >>= runCalls ks

def frames (h : DriverHandler σ) (prog : DriverProg α) (s : σ) : List Frame :=
  (prog.trace h s).filterMap T.driver.frame?

def selectFrame (page : Byte) (ok : Bool) : Frame :=
  ⟨.select, T.deviceAddr, [T.pageSelectAddr, page], 0, ok⟩

def writeFrame (regAddr : BitVec 16) (data : List Byte) (ok : Bool) : Frame :=
  ⟨.write, T.deviceAddr, inPageOffset regAddr :: data, 0, ok⟩

def readFrame (regAddr : BitVec 16) (size : Nat) (ok : Bool) : Frame :=
  ⟨.read, T.deviceAddr, [inPageOffset regAddr], size, ok⟩

/-- A select and then, if it succeeds, the data frame. -/
def uncachedAccess (page : Byte) (data : Bool → Frame) (selectOk dataOk : Bool) : List Entry :=
  .frame (T.selectFrame page selectOk) :: if selectOk then [.frame (data dataOk)] else []

/-- A call on a reference transport without a cache. -/
def uncached (selectOk dataOk : Bool) : PagedCall → List Entry
  | .rawWrite regAddr data =>
    if maxRegBytes < data.length then []
    else T.uncachedAccess (pageOf regAddr) (T.writeFrame regAddr data) selectOk dataOk
  | .rawRead regAddr data =>
    T.uncachedAccess (pageOf regAddr) (T.readFrame regAddr data.length) selectOk dataOk
  | .invalidatePageCache => [.invalidated]

/-- How a frame of the kind ended among those of a call; one that was not sent counts as
successful. -/
def outcomeOf (kind : Frame → Bool) (fs : List Frame) : Bool :=
  (fs.find? kind).elim true Frame.ok

def selectOutcome (fs : List Frame) : Bool := outcomeOf (fun f => f.site == .select) fs

def dataOutcome (fs : List Frame) : Bool := outcomeOf (fun f => f.site != .select) fs

/-- The log of the reference transport under the driver outcomes of the calls of this one; its extra
selects succeed. -/
def referenceLog (h : DriverHandler σ) : List PagedCall → PageCache → σ → List Entry
  | [], _, _ => []
  | k :: ks, c, s =>
    let fs := T.frames h (T.runCall k c) s
    let after := (T.runCall k c).run h s
    T.uncached (selectOutcome fs) (dataOutcome fs) k ++ referenceLog h ks after.1 after.2

end PagedI2cTransport

theorem PageCache.hits_iff (c : PageCache) (page : Byte) :
    c.Hits page ↔ c.page? = some page := by
  unfold Hits page?
  cases c.pageCacheValid with
  | false => simp only [Bool.false_eq_true, false_and, if_false, reduceCtorEq]
  | true => simp only [true_and, if_true, Option.some.injEq, eq_comm]

namespace PagedI2cTransport

variable {T : PagedI2cTransport} {h : DriverHandler σ}

/-- What one access sends, and the cache that it leaves: a failed select, or, after a select where
the cache misses, the data frame. -/
inductive Sent (T : PagedI2cTransport) (page : Byte) (data : Bool → Frame) (c : PageCache) :
    List Frame → PageCache → Prop
  | failed (hmiss : ¬ c.Hits page) : Sent T page data c [T.selectFrame page false] c
  | hit (hhit : c.Hits page) (ok : Bool) : Sent T page data c [data ok] c
  | selected (hmiss : ¬ c.Hits page) (ok : Bool) :
      Sent T page data c [T.selectFrame page true, data ok] ⟨page, true⟩

theorem frames_bind (prog : DriverProg α) (f : α → DriverProg β) (s : σ) :
    T.frames h (prog >>= f) s =
      T.frames h prog s ++ T.frames h (f (prog.run h s).1) (prog.run h s).2 := by
  rw [frames, Prog.trace_bind, List.filterMap_append]
  rfl

theorem frames_map (prog : DriverProg α) (f : α → β) (s : σ) :
    T.frames h (f <$> prog) s = T.frames h prog s := by
  rw [frames, Prog.trace_map]
  rfl

theorem frames_reportFailure (isVoid ok : Bool) (msg : String) (s : σ) :
    T.frames h (DriverProg.reportFailure isVoid ok msg) s = [] := by
  unfold DriverProg.reportFailure
  split_ifs <;> rfl

/-- An access sends what `Sent` allows if, once the page is selected, it sends one data frame. -/
theorem sent_of_select {k : Bool × PageCache → DriverProg (α × PageCache)} {data : Bool → Frame}
    (hfailed : ∀ c s, T.frames h (k (false, c)) s = [] ∧ ((k (false, c)).run h s).1.2 = c)
    (hselected : ∀ c s, ∃ ok, T.frames h (k (true, c)) s = [data ok] ∧
      ((k (true, c)).run h s).1.2 = c) (regAddr : BitVec 16) (c : PageCache) (s : σ) :
    Sent T (pageOf regAddr) data c (T.frames h (T.selectPage regAddr c >>= k) s)
      ((T.selectPage regAddr c >>= k).run h s).1.2 := by
  by_cases hc : c.Hits (pageOf regAddr)
  · rw [selectPage_hit hc, pure_bind]
    obtain ⟨ok, hframes, hcache⟩ := hselected c s
    rw [hframes, hcache]
    exact .hit hc ok
  · rw [selectPage_miss hc, bind_assoc, frames_bind, Prog.run_bind]
    have hselect : T.frames h (DriverProg.i2cWrite .select T.deviceAddr
        [T.pageSelectAddr, pageOf regAddr]) s = [T.selectFrame (pageOf regAddr)
          (T.driver.voidWrite || ((DriverProg.i2cWrite .select T.deviceAddr
            [T.pageSelectAddr, pageOf regAddr]).run h s).1)] := rfl
    rw [hselect]
    generalize (DriverProg.i2cWrite .select T.deviceAddr
      [T.pageSelectAddr, pageOf regAddr]).run h s = x
    cases hok : T.driver.voidWrite || x.1 with
    | true =>
      obtain ⟨ok, hframes, hcache⟩ := hselected ⟨pageOf regAddr, true⟩ x.2
      rw [if_pos rfl, pure_bind, hframes, hcache]
      exact .selected hc ok
    | false =>
      rw [if_neg Bool.false_ne_true, bind_assoc, frames_bind, Prog.run_bind]
      simp only [pure_bind]
      rw [(hfailed c _).1, (hfailed c _).2]
      exact .failed hc

theorem sent_rawWrite (regAddr : BitVec 16) {data : List Byte} (hd : data.length ≤ maxRegBytes)
    (c : PageCache) (s : σ) :
    Sent T (pageOf regAddr) (T.writeFrame regAddr data) c (T.frames h (T.rawWrite regAddr data c) s)
      ((T.rawWrite regAddr data c).run h s).1.2 := by
  rw [rawWrite, if_neg (Nat.not_lt.mpr hd)]
  apply sent_of_select
  · exact fun c s => ⟨rfl, rfl⟩
  · intro c s
    simp only [Bool.not_true, Bool.false_eq_true, if_false, DriverProg.writeFrame_eq _ hd,
      pure_bind, frames_bind, frames_reportFailure, Prog.run_bind, Prog.run_pure]
    exact ⟨_, rfl, trivial⟩

theorem sent_rawRead (regAddr : BitVec 16) (data : List Byte) (c : PageCache) (s : σ) :
    Sent T (pageOf regAddr) (T.readFrame regAddr data.length) c
      (T.frames h (T.rawRead regAddr data c) s) ((T.rawRead regAddr data c).run h s).1.2 := by
  rw [rawRead]
  apply sent_of_select
  · exact fun c s => ⟨rfl, rfl⟩
  · intro c s
    simp only [Bool.not_true, Bool.false_eq_true, if_false, frames_bind, Prog.run_bind]
    generalize (DriverProg.i2cWriteRead T.deviceAddr [inPageOffset regAddr] data).run h s = x
    split_ifs
    · exact ⟨_, rfl, rfl⟩
    · exact ⟨_, rfl, rfl⟩

theorem runCall_rawWrite_oversize (regAddr : BitVec 16) {data : List Byte}
    (hd : maxRegBytes < data.length) (c : PageCache) (s : σ) :
    T.frames h (T.runCall (.rawWrite regAddr data) c) s = [] ∧
      ((T.runCall (.rawWrite regAddr data) c).run h s).1 = c := by
  rw [runCall, T.rawWrite_oversize regAddr hd]
  exact ⟨rfl, rfl⟩

/-- Data frames of a call, by how they end. -/
structure DataFrames (data : Bool → Frame) : Prop where
  site : ∀ ok, (data ok).site ≠ .select
  ok : ∀ ok, (data ok).ok = ok

theorem effect_data {data : Bool → Frame} (hd : DataFrames data) (ok : Bool) :
    Entry.effect (.frame (data ok)) = .keep :=
  if_neg fun h => hd.site ok h.1

theorem selectOutcome_data {data : Bool → Frame} (hd : DataFrames data) (ok : Bool) :
    selectOutcome [data ok] = true := by
  have hsite : ((data ok).site == .select) = false := beq_eq_false_iff_ne.mpr (hd.site ok)
  have hfind : [data ok].find? (fun f => f.site == .select) = none :=
    List.find?_cons_of_neg fun h => Bool.false_ne_true (hsite.symm.trans h)
  rw [selectOutcome, outcomeOf, hfind]
  rfl

theorem dataOutcome_data {data : Bool → Frame} (hd : DataFrames data) (ok : Bool) :
    dataOutcome [data ok] = ok := by
  have hsite : ((data ok).site != .select) = true := bne_iff_ne.mpr (hd.site ok)
  have hfind : [data ok].find? (fun f => f.site != .select) = some (data ok) :=
    List.find?_cons_of_pos hsite
  rw [dataOutcome, outcomeOf, hfind]
  exact hd.ok ok

theorem dataOutcome_select (page : Byte) (ok : Bool) (fs : List Frame) :
    dataOutcome (T.selectFrame page ok :: fs) = dataOutcome fs :=
  rfl

/-- What an access sends is what the reference transport sends without the select that the cache
saves, and the cache is left with the page that the reference selected last. -/
theorem Sent.eq_uncached {data : Bool → Frame} (hs : Sent T page data c fs c')
    (hd : DataFrames data) :
    let log := T.uncachedAccess page data (selectOutcome fs) (dataOutcome fs)
    fs = (dropReloads Entry.effect c.page? log).filterMap Entry.frame? ∧
      c'.page? = held Entry.effect c.page? log := by
  intro log
  cases hs with
  | failed hmiss => exact ⟨rfl, rfl⟩
  | hit hhit ok =>
    have hlog : log = [.frame (T.selectFrame page true), .frame (data ok)] := by
      simp only [log, selectOutcome_data hd, dataOutcome_data hd]
      rfl
    have hreload : (Entry.effect (.frame (T.selectFrame page true))).Reloads c.page? :=
      (c.hits_iff page).mp hhit
    rw [hlog, dropReloads, if_pos hreload, dropReloads, effect_data hd, held_cons, hreload.apply,
      held_cons, effect_data hd]
    exact ⟨rfl, rfl⟩
  | selected hmiss ok =>
    have hlog : log = [.frame (T.selectFrame page true), .frame (data ok)] := by
      simp only [log, dataOutcome_select, dataOutcome_data hd]
      rfl
    have hload : ¬ (Entry.effect (.frame (T.selectFrame page true))).Reloads c.page? :=
      fun h => hmiss ((c.hits_iff page).mpr h)
    rw [hlog, dropReloads, if_neg hload, dropReloads, effect_data hd, held_cons, held_cons,
      effect_data hd]
    exact ⟨rfl, rfl⟩

theorem dataFrames_write (T : PagedI2cTransport) (regAddr : BitVec 16) (data : List Byte) :
    DataFrames (T.writeFrame regAddr data) :=
  ⟨fun _ => nofun, fun _ => rfl⟩

theorem dataFrames_read (T : PagedI2cTransport) (regAddr : BitVec 16) (size : Nat) :
    DataFrames (T.readFrame regAddr size) :=
  ⟨fun _ => nofun, fun _ => rfl⟩

theorem runCall_eq_uncached (k : PagedCall) (c : PageCache) (s : σ) :
    let fs := T.frames h (T.runCall k c) s
    let log := T.uncached (selectOutcome fs) (dataOutcome fs) k
    fs = (dropReloads Entry.effect c.page? log).filterMap Entry.frame? ∧
      ((T.runCall k c).run h s).1.page? = held Entry.effect c.page? log := by
  intro fs log
  cases k with
  | rawWrite regAddr data =>
    by_cases hd : maxRegBytes < data.length
    · have hlog : log = [] := if_pos hd
      obtain ⟨hframes, hcache⟩ := runCall_rawWrite_oversize regAddr hd c s
      rw [hlog, hcache]
      exact ⟨hframes, rfl⟩
    · have hlog : log = T.uncachedAccess (pageOf regAddr) (T.writeFrame regAddr data)
          (selectOutcome fs) (dataOutcome fs) := if_neg hd
      have hs := sent_rawWrite (T := T) (h := h) regAddr (Nat.le_of_not_lt hd) c s
      rw [← frames_map (T.rawWrite regAddr data c) Prod.snd] at hs
      rw [hlog, runCall, Prog.run_map]
      exact hs.eq_uncached (dataFrames_write T regAddr data)
  | rawRead regAddr data =>
    have hs := sent_rawRead (T := T) (h := h) regAddr data c s
    rw [← frames_map (T.rawRead regAddr data c) Prod.snd] at hs
    rw [runCall, Prog.run_map]
    exact hs.eq_uncached (dataFrames_read T regAddr data.length)
  | invalidatePageCache => exact ⟨rfl, rfl⟩

/-- From any cache, the frames on the bus are those of the reference transport without the selects
of the page that is selected. -/
theorem frames_runCalls (ks : List PagedCall) (c : PageCache) (s : σ) :
    T.frames h (T.runCalls ks c) s =
      (dropReloads Entry.effect c.page? (T.referenceLog h ks c s)).filterMap Entry.frame? := by
  induction ks generalizing c s with
  | nil => rfl
  | cons k ks ih =>
    obtain ⟨hframes, hpage⟩ := runCall_eq_uncached (T := T) (h := h) k c s
    rw [runCalls, frames_bind, ih, referenceLog, dropReloads_append, List.filterMap_append,
      ← hpage, ← hframes]

/-- The page cache removes exactly the redundant selects: the frames of a new transport are those of
the reference without the successful selects of the page that was selected last. -/
theorem frames_eq_reference (T : PagedI2cTransport) (h : DriverHandler σ) (ks : List PagedCall)
    (s : σ) :
    T.frames h (T.runCalls ks {}) s =
      (dropReloads Entry.effect none (T.referenceLog h ks {} s)).filterMap Entry.frame? :=
  frames_runCalls ks {} s

end PagedI2cTransport

end Umimmio
