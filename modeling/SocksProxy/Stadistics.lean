import Mathlib.Tactic.Common

/-!
# Counters (`stadistics.c`)
-/

namespace SocksProxy

structure Stadistics where
  totalConnections : UInt16
  concurrentConnections : UInt16
  bytesSent : UInt32
  deriving DecidableEq, Repr

def stadisticsInit : Stadistics := ⟨0, 0, 0⟩

def stadisticsIncreaseConcurrent (s : Stadistics) : Stadistics where
  totalConnections := if s.totalConnections < 0xFFFF then s.totalConnections + 1 else s.totalConnections
  concurrentConnections :=
    if s.concurrentConnections < 0xFFFF then s.concurrentConnections + 1 else s.concurrentConnections
  bytesSent := s.bytesSent

def stadisticsDecreaseConcurrent (s : Stadistics) : Stadistics :=
  { s with
    concurrentConnections :=
      if 0 < s.concurrentConnections then s.concurrentConnections - 1 else s.concurrentConnections }

/-- The sum is taken in 64 bits. -/
def stadisticsIncreaseBytesSent (s : Stadistics) (bytes : UInt64) : Stadistics :=
  { s with
    bytesSent := if s.bytesSent.toUInt64 + bytes < 0xFFFFFFFF then s.bytesSent + bytes.toUInt32 else s.bytesSent }

def getConcurrentConnections (s : Stadistics) : UInt16 := s.concurrentConnections
def getTotalConnections (s : Stadistics) : UInt16 := s.totalConnections
def getBytesSent (s : Stadistics) : UInt32 := s.bytesSent

end SocksProxy
