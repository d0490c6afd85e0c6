import FileDepot.Store.Cursor

/-!
# Summaries

The report of a store's final state: its counters and the path and size of every file left.
-/

namespace FileDepot

/-- The counters, and the path and size of every file. -/
structure Summary where
  stats : Stats
  files : List (String × Nat)

namespace Summary

/-- The summary of a store. -/
def ofStore (s : Store) : Summary where
  stats := s.stats
  files := (s.list 0).map fun f => (f.path, f.size)

/-- The two lines of the `n`th file, counted from 1. -/
def renderFile (n : Nat) (file : String × Nat) : String :=
  "- " ++ toString n ++ " (size): " ++ toString file.2 ++ "\n"
    ++ "  " ++ toString n ++ " (path): " ++ file.1 ++ "\n"

/-- The printed report. -/
def render (s : Summary) : String :=
  "Max. files stored: " ++ toString s.stats.maxFilesSeen ++ "\n"
    ++ "Max. space in bytes: " ++ toString s.stats.maxBytesSeen ++ "\n"
    ++ "Num. of evictions: " ++ toString s.stats.evictions ++ "\n"
    ++ "Current space in bytes: " ++ toString s.stats.bytes ++ "\n"
    ++ "Current contents of the file storage server: " ++ toString s.stats.files ++ "\n"
    ++ "================\n"
    ++ String.join (s.files.mapIdx fun i file => renderFile (i + 1) file)

end Summary

end FileDepot
