/-!
# Shortening runs of lines

Equal neighbours become one line with their number. The lines of a long series of copies become
the first, a count of those left out, and the last.
-/

namespace HashBoard.Text

/-- A line in front of runs: it joins the first of them or makes one of its own. -/
def joinRun (line : String) : List (String × Nat) → List (String × Nat)
  | [] => [(line, 1)]
  | (l, n) :: rest => if l = line then (l, n + 1) :: rest else (line, 1) :: (l, n) :: rest

/-- Equal neighbours with their number. -/
def runs (lines : List String) : List (String × Nat) := lines.foldr joinRun []

/-- A line with its number, which is written when it is more than one. -/
def counted (r : String × Nat) : String :=
  if r.2 = 1 then r.1 else r.1 ++ " *" ++ toString r.2

/-- The lines, each run of equal ones written once. -/
def condense (lines : List String) : List String := (runs lines).map counted

/-- The lines, with more than four neighbours that `belongs` holds of cut to the first, `omitted`
of the number left out, and the last. -/
def thin (belongs : String → Bool) (omitted : Nat → String) (lines : List String) : List String :=
  let close (series : List String) : List String :=
    match series with
    | last :: rest =>
      if 4 < series.length then [last, omitted (series.length - 2), rest.getLastD last] else series
    | [] => []
  let step (state : List String × List String) (line : String) : List String × List String :=
    if belongs line then (state.1, line :: state.2) else (line :: (close state.2 ++ state.1), [])
  let final := lines.foldl step ([], [])
  (close final.2 ++ final.1).reverse

end HashBoard.Text
