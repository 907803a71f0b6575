import Mathlib.Algebra.Group.Nat.Defs
import Mathlib.Logic.Function.Basic

/-! Constants, enumerations and descriptor words of `internal.h` and `mhi.h`.
Power states are single bits of one word, so every mask test of the source is a
mask test here. Descriptor fields are kept raw: a device may store any word. -/
namespace MhiHost

inductive Errno where
  | einval | enomem | eio | ebusy | enotconn | etimedout | eoverflow
  deriving DecidableEq, Repr

inductive PmState where
  | disable | por | m0 | m2 | m3Enter | m3 | m3Exit | fwDlErr
  | sysErrDetect | sysErrProcess | shutdownProcess | ldErrFatalDetect
  deriving DecidableEq, Repr

namespace PmState

def index : PmState → Nat
  | disable => 0 | por => 1 | m0 => 2 | m2 => 3 | m3Enter => 4 | m3 => 5 | m3Exit => 6 | fwDlErr => 7
  | sysErrDetect => 8 | sysErrProcess => 9 | shutdownProcess => 10 | ldErrFatalDetect => 11

def bit (s : PmState) : Nat := 1 <<< s.index

def mask (states : List PmState) : Nat := states.foldl (fun m s => m ||| s.bit) 0

def within (s : PmState) (m : Nat) : Bool := s.bit &&& m != 0

end PmState
open PmState (mask)

def mhiRegAccessValid (s : PmState) : Bool :=
  s.within (mask [.por,.m0,.m2,.m3Enter,.m3Exit,.sysErrDetect,.sysErrProcess,.shutdownProcess,.fwDlErr])
def mhiPmInErrorState (s : PmState) : Bool := decide (PmState.fwDlErr.bit ≤ s.bit)
def mhiPmInFatalState (s : PmState) : Bool := decide (s = .ldErrFatalDetect)
def mhiWakeDbClearValid (s : PmState) : Bool := s.within (mask [.m0,.m2,.m3Exit])
def mhiWakeDbSetValid (s : PmState) : Bool := s.within (mask [.m2])
def mhiWakeDbForceSetValid (s : PmState) : Bool := mhiWakeDbClearValid s
def mhiEventAccessInvalid (s : PmState) : Bool := decide (s = .disable) || mhiPmInErrorState s
def mhiPmInSuspendState (s : PmState) : Bool := s.within (mask [.m3Enter,.m3])

def devStateTransitions : List (PmState × Nat) := [
  (.disable, mask [.por]),
  (.por, mask [.por,.disable,.m0,.sysErrDetect,.shutdownProcess,.ldErrFatalDetect,.fwDlErr]),
  (.m0, mask [.m0,.m2,.m3Enter,.sysErrDetect,.shutdownProcess,.ldErrFatalDetect,.fwDlErr]),
  (.m2, mask [.m0,.sysErrDetect,.shutdownProcess,.ldErrFatalDetect]),
  (.m3Enter, mask [.m3,.sysErrDetect,.shutdownProcess,.ldErrFatalDetect]),
  (.m3, mask [.m3Exit,.sysErrDetect,.shutdownProcess,.ldErrFatalDetect]),
  (.m3Exit, mask [.m0,.sysErrDetect,.shutdownProcess,.ldErrFatalDetect]),
  (.fwDlErr, mask [.fwDlErr,.sysErrDetect,.shutdownProcess,.ldErrFatalDetect]),
  (.sysErrDetect, mask [.sysErrProcess,.shutdownProcess,.ldErrFatalDetect]),
  (.sysErrProcess, mask [.por,.shutdownProcess,.ldErrFatalDetect]),
  (.shutdownProcess, mask [.disable,.ldErrFatalDetect]),
  (.ldErrFatalDetect, mask [.ldErrFatalDetect,.shutdownProcess])]

def mhiTrysetPmState (cur state : PmState) : PmState :=
  match devStateTransitions[cur.index]? with
  | none => cur
  | some row => if row.1 ≠ cur then cur else if row.2 &&& state.bit = 0 then cur else state

theorem trysetCases (cur state : PmState) :
    mhiTrysetPmState cur state = state ∨ mhiTrysetPmState cur state = cur := by
  unfold mhiTrysetPmState
  split
  · exact .inr rfl
  · split
    · exact .inr rfl
    · split
      · exact .inr rfl
      · exact .inl rfl

inductive ExecEnv where
  | pbl | sbl | amss | rddm | wfw | pthru | edl | fp | disableTransition | notSupported | max
  deriving DecidableEq, Repr

def ExecEnv.code : ExecEnv → Nat
  | pbl => 0 | sbl => 1 | amss => 2 | rddm => 3 | wfw => 4 | pthru => 5 | edl => 6 | fp => 7
  | disableTransition => 8 | notSupported => 9 | max => 10

def ExecEnv.bit (e : ExecEnv) : Nat := 1 <<< e.code
def mhiInPbl (e : ExecEnv) : Bool := decide (e = .pbl ∨ e = .pthru ∨ e = .edl)
def mhiInMissionMode (e : ExecEnv) : Bool := decide (e = .amss ∨ e = .wfw)

inductive DevState where
  | reset | ready | m0 | m1 | m2 | m3 | m3Fast | bhi | sysErr | max
  deriving DecidableEq, Repr

def DevState.code : DevState → Nat
  | reset => 0x0 | ready => 0x1 | m0 => 0x2 | m1 => 0x3 | m2 => 0x4 | m3 => 0x5 | m3Fast => 0x6 | bhi => 0x7
  | sysErr => 0xff | max => 0x100

inductive ChState where
  | disabled | enabled | running | suspended | stop | error
  deriving DecidableEq, Repr

inductive DmaDir where
  | bidirectional | toDevice | fromDevice | none
  deriving DecidableEq, Repr

inductive BrstMode where
  | disable | enable
  deriving DecidableEq, Repr

inductive DevStTransition where
  | pbl | ready | sbl | missionMode | fp | sysErr | disable
  deriving DecidableEq, Repr

inductive CmdType where
  | nop | resetChan | stopChan | startChan
  deriving DecidableEq, Repr

def CmdType.code : CmdType → Nat
  | nop => 1 | resetChan => 16 | stopChan => 17 | startChan => 18

structure MhiTre where
  ptr : Nat
  dword0 : Nat
  dword1 : Nat
  deriving DecidableEq, Repr

def sizeofMhiTre : Nat := 16
def mhiMaxMtu : Nat := 0xffff

namespace MhiTre

def cmdDword1 (chid : Nat) (cmd : CmdType) : Nat := (chid <<< 24) ||| (cmd.code <<< 16)
def getCmdChid (t : MhiTre) : Nat := (t.dword1 >>> 24) &&& 0xff
def getEvPtr (t : MhiTre) : Nat := t.ptr
def getEvCode (t : MhiTre) : Nat := (t.dword0 >>> 24) &&& 0xff
def getEvLen (t : MhiTre) : Nat := t.dword0 &&& 0xffff
def getEvChid (t : MhiTre) : Nat := (t.dword1 >>> 24) &&& 0xff
def getEvType (t : MhiTre) : Nat := (t.dword1 >>> 16) &&& 0xff
def getEvState (t : MhiTre) : Nat := (t.dword0 >>> 24) &&& 0xff
def getEvExecenv (t : MhiTre) : Nat := (t.dword0 >>> 24) &&& 0xff
def getEvCookie (t : MhiTre) : Nat := t.ptr % 2 ^ 32
def getEvLinkspeed (t : MhiTre) : Nat := (t.dword1 >>> 24) &&& 0xff
def getEvLinkwidth (t : MhiTre) : Nat := t.dword0 &&& 0xff
def dataDword0 (len : Nat) : Nat := len &&& mhiMaxMtu
def dataDword1 (bei ieot ieob chain : Bool) : Nat :=
  (2 <<< 16) ||| (bei.toNat <<< 10) ||| (ieot.toNat <<< 9) ||| (ieob.toNat <<< 8) ||| chain.toNat

theorem dataDword0Exact {len : Nat} (fits : len ≤ mhiMaxMtu) : dataDword0 len = len := by
  have small : len < 2 ^ 16 := by unfold mhiMaxMtu at fits; omega
  have masked : len &&& (2 ^ 16 - 1) = len % 2 ^ 16 := Nat.and_two_pow_sub_one_eq_mod len 16
  exact masked.trans (Nat.mod_eq_of_lt small)

end MhiTre

namespace EvCc
def invalid : Nat := 0x0
def success : Nat := 0x1
def eot : Nat := 0x2
def overflow : Nat := 0x3
def eob : Nat := 0x4
def oob : Nat := 0x5
def dbMode : Nat := 0x6
end EvCc

namespace PktType
def stateChangeEvent : Nat := 0x20
def cmdCompletionEvent : Nat := 0x21
def txEvent : Nat := 0x22
def rscTxEvent : Nat := 0x28
def eeEvent : Nat := 0x40
def bwReqEvent : Nat := 0x50
def staleEvent : Nat := 0x51
end PktType

namespace MhiFlags
def eob : Nat := 1
def eot : Nat := 2
def chain : Nat := 4
end MhiFlags

end MhiHost
