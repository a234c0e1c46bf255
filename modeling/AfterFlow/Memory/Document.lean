import Mathlib.Data.Rat.Defs

/-!
# Memory documents

The document that the memory of a user and an agent is kept in: six summaries and a list of facts.
-/

namespace AfterFlow.Memory

structure Section where
  summary : String
  updatedAt : String
  deriving DecidableEq

structure Fact where
  /-- Facts of old files have none. -/
  id : Option String
  content : String
  category : String
  confidence : ℚ
  createdAt : String
  source : String
  sourceError : Option String
  /-- When the fact was merged from others, and from which. -/
  consolidated : Option (String × List String)
  deriving DecidableEq

structure MemoryData where
  version : String
  lastUpdated : String
  workContext : Section
  personalContext : Section
  topOfMind : Section
  recentMonths : Section
  earlierContext : Section
  longTermBackground : Section
  facts : List Fact
  deriving DecidableEq

def Section.empty : Section := ⟨"", ""⟩

/-- `create_empty_memory`, at the time `now`. -/
def createEmptyMemory (now : String) : MemoryData where
  version := "1.0"
  lastUpdated := now
  workContext := .empty
  personalContext := .empty
  topOfMind := .empty
  recentMonths := .empty
  earlierContext := .empty
  longTermBackground := .empty
  facts := []

/-- `{**memory_data, "lastUpdated": now}`. -/
def MemoryData.touched (d : MemoryData) (now : String) : MemoryData := { d with lastUpdated := now }

end AfterFlow.Memory
