import BattleTree.Trace.Event

/-!
This module contains the receivers of trace events: logs, filters in front of other receivers, and
the receiver that drops everything.
-/

namespace BattleTree

class TraceSink (σ : Type) where
  emit : σ → TraceEvent → σ

instance : TraceSink Unit where
  emit sink _ := sink

instance : TraceSink (Array TraceEvent) where
  emit events event := events.push event

structure TraceLog where
  events : Array TraceEvent
  deriving DecidableEq, Repr, Inhabited

namespace TraceLog

def empty : TraceLog :=
  ⟨#[]⟩

def toList (log : TraceLog) : List TraceEvent :=
  log.events.toList

def push (log : TraceLog) (event : TraceEvent) : TraceLog :=
  ⟨log.events.push event⟩

instance : TraceSink TraceLog where
  emit := push

def size (log : TraceLog) : Nat :=
  log.events.size

def isEmpty (log : TraceLog) : Bool :=
  log.events.isEmpty

def ofKind (log : TraceLog) (kind : EventKind) : List TraceEvent :=
  log.toList.filter (·.kind = kind)

def atTick (log : TraceLog) (tick : UInt64) : List TraceEvent :=
  log.toList.filter (·.tick = tick)

def fired (log : TraceLog) : List (UInt64 × UInt32) :=
  (log.ofKind .fired).map fun e => (e.tick, e.node)

def text (log : TraceLog) : String :=
  log.toList.foldl (fun text event => text ++ event.text ++ "\n") ""

@[simp]
theorem toList_empty : empty.toList = [] := rfl

@[simp]
theorem toList_push (log : TraceLog) (event : TraceEvent) :
    (log.push event).toList = log.toList ++ [event] := by
  simp [toList, push]

end TraceLog

structure KindFilter (σ : Type) where
  kinds : List EventKind
  inner : σ
  deriving DecidableEq, Repr

instance {σ : Type} [TraceSink σ] : TraceSink (KindFilter σ) where
  emit sink event :=
    if event.kind ∈ sink.kinds then { sink with inner := TraceSink.emit sink.inner event } else sink

end BattleTree
