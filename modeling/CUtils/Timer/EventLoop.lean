import CUtils.Timer.SharedIds
import CUtils.Timer.Agreement

/-!
# The event loop

A running `Timer` has a thread that polls the reactor. `RunLoop` looks at the switch, `Polling`
waits for events, collects the handlers of their descriptors and handles them one after the other;
the handler of a timer reads its descriptor, and `OnTimer` follows only if there was something to
read. The clock is `CLOCK_MONOTONIC`, in nanoseconds, and goes on between any two steps; other
threads and the callbacks use the timer between any two steps, too.

What `epoll_wait` reports is not restricted. A report may be out of date by the time the handlers
are looked up, and a descriptor may have been made anew by then.

`registered` and `calls` are what has happened so far, latest first.
-/

namespace CUtils.Timers

/-! ## Times -/

/-- `NANO_TO_BASE` -/
def nanoToBase : Nat := 1000000000

/-- `MILLI_TO_BASE` -/
def milliToBase : BitVec 32 := 1000

/-- `MILLI_TO_NANO` -/
def milliToNano : BitVec 32 := 1000000

/-- A `timespec` of less than a second's nanoseconds. -/
structure Timespec where
  tvSec : Nat
  tvNsec : Nat
  normal : tvNsec < nanoToBase

namespace Timespec

def nanos (t : Timespec) : Nat := t.tvSec * nanoToBase + t.tvNsec

theorem nanoToBase_pos : 0 < nanoToBase := by decide

/-- `clock_gettime` at `now` nanoseconds. -/
def ofNanos (now : Nat) : Timespec where
  tvSec := now / nanoToBase
  tvNsec := now % nanoToBase
  normal := Nat.mod_lt now nanoToBase_pos

theorem nanos_ofNanos (now : Nat) : (ofNanos now).nanos = now := Nat.div_add_mod' now nanoToBase

/-- The part of an interval that `tv_nsec` gets; the product is one of `uint32_t`. -/
def nsecOf (interval : BitVec 32) : Nat := (interval % milliToBase * milliToNano).toNat

theorem nsecOf_eq (interval : BitVec 32) : nsecOf interval = interval.toNat % 1000 * 1000000 := by
  have hmod := Nat.mod_lt interval.toNat (show 0 < 1000 by decide)
  rw [nsecOf, BitVec.toNat_mul, BitVec.toNat_umod]
  show interval.toNat % 1000 * 1000000 % 2 ^ 32 = _
  rw [Nat.mod_eq_of_lt (by omega)]

theorem nsecOf_normal (interval : BitVec 32) : nsecOf interval < nanoToBase := by
  have hmod := Nat.mod_lt interval.toNat (show 0 < 1000 by decide)
  rw [nsecOf_eq, nanoToBase]
  omega

/-- `it_value`: the next time out is now and the interval. -/
def timeOutAt (now : Timespec) (interval : BitVec 32) : Timespec :=
  if h : now.tvNsec + nsecOf interval ≥ nanoToBase then
    ⟨now.tvSec + (interval / milliToBase).toNat + 1, (now.tvNsec + nsecOf interval) % nanoToBase,
      Nat.mod_lt _ nanoToBase_pos⟩
  else ⟨now.tvSec + (interval / milliToBase).toNat, now.tvNsec + nsecOf interval, Nat.lt_of_not_ge h⟩

/-- `it_interval`, where 0 means time out only once. -/
def period (interval : BitVec 32) (once : Bool) : Timespec :=
  if once then ⟨0, 0, nanoToBase_pos⟩
  else ⟨(interval / milliToBase).toNat, nsecOf interval, nsecOf_normal interval⟩

end Timespec

/-- An interval in nanoseconds. -/
def nanosOf (interval : BitVec 32) : Nat := interval.toNat * 1000000

theorem nanos_split (interval : BitVec 32) :
    (interval / milliToBase).toNat * nanoToBase + Timespec.nsecOf interval = nanosOf interval := by
  have hdiv := Nat.div_add_mod interval.toNat 1000
  rw [Timespec.nsecOf_eq, BitVec.toNat_udiv, nanosOf, nanoToBase]
  show interval.toNat / 1000 * 1000000000 + _ = _
  omega

/-- The time out is exactly one interval from now. -/
theorem Timespec.nanos_timeOutAt (now : Timespec) (interval : BitVec 32) :
    (now.timeOutAt interval).nanos = now.nanos + nanosOf interval := by
  have hsplit := nanos_split interval
  have hnow := now.normal
  have hnsec := nsecOf_normal interval
  rw [timeOutAt]
  split
  · next h =>
      -- the nanoseconds make up less than two seconds
      have hless : now.tvNsec + nsecOf interval - nanoToBase < nanoToBase := by omega
      have hmod := (Nat.mod_eq_sub_mod h).trans (Nat.mod_eq_of_lt hless)
      simp only [nanos, hmod, Nat.add_mul, Nat.one_mul]
      omega
  · simp only [nanos, Nat.add_mul]
    omega

theorem Timespec.nanos_period (interval : BitVec 32) (once : Bool) :
    (period interval once).nanos = if once then 0 else nanosOf interval := by
  cases once with
  | true => simp [period, nanos]
  | false => exact nanos_split interval

/-! ## Descriptors -/

/-- A timer descriptor: what it was set to, how many of its expirations have been read, and with how
many reads. -/
structure TimerFd where
  value : Nat
  interval : Nat
  taken : Nat
  reads : Nat

/-- `timerfd_settime` in `Initialize`. -/
def TimerFd.initialized (now : Nat) (interval : BitVec 32) (once : Bool) : TimerFd where
  value := ((Timespec.ofNanos now).timeOutAt interval).nanos
  interval := (Timespec.period interval once).nanos
  taken := 0
  reads := 0

/-- How often the timer has expired. A value of zero disarms it. -/
def TimerFd.expirations (f : TimerFd) (now : Nat) : Nat :=
  if f.value = 0 ∨ now < f.value then 0
  else if f.interval = 0 then 1
  else (now - f.value) / f.interval + 1

/-! ## The loop -/

/-- A callback has been called: for which entry, when, and after how many reads of its
descriptor. -/
structure Call where
  entry : Entry
  time : Nat
  round : Nat
  deriving DecidableEq

structure Loop where
  now : Nat
  timer : Timer
  /-- What the kernel has for a descriptor that is open. -/
  timerFds : Nat → TimerFd
  /-- `RunLoop` has seen the switch on, and `epoll_wait` has not returned yet. -/
  waiting : Bool
  /-- The handlers that `Polling` has collected and not done with. -/
  taskQue : List Nat
  switch : Bool
  registered : List (Entry × Nat)
  calls : List Call

/-- The descriptor that `Register` makes, if it makes one. -/
def Timer.makes (t : Timer) (interval : BitVec 32) (once : Bool) (create : Option Nat) : Option Nat :=
  match if once then none else t.getTimerFd interval with
  | some _ => none
  | none => create

namespace Loop

/-- The loop has just been started. -/
def start (now : Nat) : Loop where
  now := now
  timer := Timer.new
  timerFds _ := ⟨0, 0, 0, 0⟩
  waiting := false
  taskQue := []
  switch := true
  registered := []
  calls := []

def register (l : Loop) (interval : BitVec 32) (once : Bool) (create : Option Nat) : Loop :=
  let (timerId, timer) := l.timer.register interval once create
  { l with
    timer := timer
    timerFds := (l.timer.makes interval once create).elim l.timerFds fun timerFd =>
      Function.update l.timerFds timerFd (.initialized l.now interval once)
    registered := (timerId.bind timer.timerToEntries).elim l.registered fun entry =>
      (entry, l.now) :: l.registered }

/-- `RunLoop` goes for another round. -/
def runLoop (l : Loop) : Loop :=
  if l.switch ∧ l.taskQue = [] then { l with waiting := true } else l

/-- `epoll_wait` has returned, and `Polling` looks the handlers up. -/
def polling (l : Loop) (epollEvents : List Nat) : Loop :=
  if l.waiting then
    { l with waiting := false, taskQue := epollEvents.filter fun fd => fd ∈ l.timer.handlers }
  else l

/-- `TimeOut` of the next handler, up to the copy of the list in `OnTimer`. If there is nothing to
read, it skips the callback. -/
def timeOut (l : Loop) : Loop :=
  match l.taskQue, l.timer.firing with
  | timerFd :: rest, none =>
      let f := l.timerFds timerFd
      if f.expirations l.now = f.taken then { l with taskQue := rest }
      else { l with
        timerFds := Function.update l.timerFds timerFd
          { f with taken := f.expirations l.now, reads := f.reads + 1 }
        timer := l.timer.onTimer timerFd }
  | _, _ => l

/-- `OnTimer` goes on with the next entry of the list it has copied. If stop, callback is
forbidden. -/
def onTimerNext (l : Loop) : Loop :=
  match l.timer.firing with
  | some ⟨timerFd, _, ptr :: _, _⟩ => { l with
      timer := l.timer.onTimerNext
      calls := if ptr.timerFd = timerFd ∧ l.switch then
          ⟨ptr, l.now, (l.timerFds timerFd).reads⟩ :: l.calls
        else l.calls }
  | _ => l

/-- `OnTimer` returns, and the handler is done with. -/
def onTimerEnd (l : Loop) : Loop :=
  match l.timer.firing with
  | some ⟨_, _, [], _⟩ => { l with timer := l.timer.onTimerEnd, taskQue := l.taskQue.tail }
  | _ => l

end Loop

inductive Tick
  | elapse (n : Nat)
  | register (interval : BitVec 32) (once : Bool) (create : Option Nat)
  | unregister (timerId : Id)
  /-- `SwitchOff`, in `Shutdown`. -/
  | switchOff
  | runLoop
  | polling (epollEvents : List Nat)
  | timeOut
  | onTimerNext
  | onTimerEnd

def Loop.step (l : Loop) : Tick → Loop
  | .elapse n => { l with now := l.now + n }
  | .register interval once create => l.register interval once create
  | .unregister timerId => { l with timer := l.timer.unregister timerId }
  | .switchOff => { l with switch := false }
  | .runLoop => l.runLoop
  | .polling epollEvents => l.polling epollEvents
  | .timeOut => l.timeOut
  | .onTimerNext => l.onTimerNext
  | .onTimerEnd => l.onTimerEnd

def Loop.run (l : Loop) (ticks : List Tick) : Loop := ticks.foldl Loop.step l

/-- `timerfd_create` returns a descriptor that is not open: neither the reactor nor `Polling` has a
handler for it. Some id is free, and none comes back while its timer is firing. -/
def Tick.Possible (l : Loop) : Tick → Prop
  | .register interval once create =>
      (∀ fd ∈ create, fd ∉ l.timer.handlers ∧ fd ∉ l.taskQue) ∧ l.timer.live < 2 ^ 32 - 3 ∧
        ¬ (Op.register interval once create).Reuses l.timer
  | _ => True

end CUtils.Timers
