/-!
# Phases of an epoch change

```text
idle → preparing → on-chip cache → items partitioned → generating → duplicating → done
                 → cache upload →
                 → done (resident)
```

Every phase after the first may fall back to idle.
-/

namespace HashBoard

/-- How far an epoch change has come. -/
inductive EpochPhase
  /-- Nothing going on, or a change that failed. -/
  | idle
  /-- Setting the core up. -/
  | preparing
  /-- The board derives the light cache. -/
  | onChipCache
  /-- The host uploads the light cache. -/
  | cacheUpload
  /-- Programming the mixer ranges. -/
  | itemsPartitioned
  /-- The generator runs. -/
  | generating
  /-- The dataset is spread over both stacks. -/
  | duplicating
  /-- The board is ready. -/
  | done
  deriving DecidableEq, Repr

namespace EpochPhase

/-- All phases in order. -/
def all : List EpochPhase :=
  [.idle, .preparing, .onChipCache, .cacheUpload, .itemsPartitioned, .generating, .duplicating,
    .done]

/-- The phase in words. -/
def display : EpochPhase → String
  | .idle => "idle"
  | .preparing => "preparing"
  | .onChipCache => "on-chip cache"
  | .cacheUpload => "cache upload"
  | .itemsPartitioned => "items partitioned"
  | .generating => "generating"
  | .duplicating => "duplicating"
  | .done => "done"

end EpochPhase

/-- How an epoch change ended. -/
inductive EpochOutcome
  /-- The epoch is the one prepared last; nothing was touched. -/
  | skipped
  /-- The board already held the dataset. -/
  | resident
  /-- The dataset was generated. -/
  | generated
  deriving DecidableEq, Repr

/-- The outcome as one word. -/
def EpochOutcome.display : EpochOutcome → String
  | .skipped => "Skipped"
  | .resident => "AlreadyResident"
  | .generated => "Generated"

end HashBoard
