import Nek0.Dart.FileManager
import Nek0.Native.RemotePaths

/-!
# `Nek0.Dart.FileSearch`: the search of `FileManagerScreen`

`lib/screens/file_manager_screen.dart`, the search below the current directory. Each `_runSearch`
is a coroutine that waits for one listing at a time, and several of them can be under way
(`searches`). A listing is asked for the current path of that moment. The rest of the screen is
`FileManager`.

`lower` is `String.toLowerCase`. `foundIn`, `listedAt` and `submitted` are there for the
specifications: the path of the listing that gave a hit, the current path it was asked under, and
the needle of the search that was started last.

Left out: the texts, and what `_downloadHit` does with the file.
-/

set_option autoImplicit false

namespace Nek0.Dart

open Nek0.Lib (System)

/-- `_SearchHit`. -/
structure SearchHit where
  entry : FtEntry
  relativePath : String
  foundIn : String
  listedAt : String
  deriving DecidableEq, Repr

/-- The path of the entry `name` of the directory `rel`, both relative. -/
def childRel (rel name : String) : String := if rel.isEmpty then name else rel ++ "/" ++ name

/-- The path that a listing of `rel` is asked for. -/
def scanPath (currentPath rel : String) : String :=
  if rel.isEmpty then currentPath else FileManager.join currentPath rel

/-- The name contains the needle. -/
def nameMatches (lower : String → String) (needle name : String) : Bool :=
  decide (needle.toList <:+: (lower name).toList)

/-- `String.trim`: white space and the byte order mark go. -/
def trimQuery (query : String) : String :=
  .ofList (Nek0.Lib.Paths.trim (fun c => Nek0.Native.isWhitespace c || c == '\uFEFF') query.toList)

/-- A `_runSearch` that waits for the listing of `rel`. -/
structure RunSearch where
  needle : String
  dirsToScan : List String
  scanned : Nat
  hits : List SearchHit
  rel : String
  path : String
  listedAt : String
  deriving DecidableEq, Repr

namespace RunSearch

/-- `_runSearch`, up to its loop. -/
def start (currentPath needle : String) : RunSearch where
  needle := needle
  dirsToScan := [""]
  scanned := 0
  hits := []
  rel := ""
  path := currentPath
  listedAt := currentPath

/-- The next directory is asked for. -/
def ask (currentPath : String) (s : RunSearch) : RunSearch :=
  let rel := s.dirsToScan.headD ""
  { s with
      dirsToScan := s.dirsToScan.tail
      scanned := s.scanned + 1
      rel := rel
      path := scanPath currentPath rel
      listedAt := currentPath }

/-- One entry of the listing. -/
def visit (lower : String → String) (s : RunSearch) (e : FtEntry) : RunSearch :=
  if e.isParent || e.name == "." then s
  else
    let s :=
      if nameMatches lower s.needle e.name then
        { s with
            hits := s.hits ++ [{
              entry := e
              relativePath := childRel s.rel e.name
              foundIn := s.path
              listedAt := s.listedAt }] }
      else s
    if e.isFile then s else { s with dirsToScan := s.dirsToScan ++ [childRel s.rel e.name] }

/-- The entries of the listing. They are looked at in search mode only. -/
def read (lower : String → String) (searchMode : Bool) (entries : List FtEntry) (s : RunSearch) :
    RunSearch :=
  if searchMode then entries.foldl (visit lower) s else s

/-- The loop condition. -/
def goesOn (searchMode : Bool) (s : RunSearch) : Bool :=
  !s.dirsToScan.isEmpty && s.scanned < 64 && s.hits.length < 100 && searchMode

end RunSearch

/-- `_FileManagerScreenState` with its search. `query` is the text of `_searchController`. -/
structure FileSearch extends FileManager where
  query : String
  searchDebounce : Option String
  searchHits : List SearchHit
  searching : Bool
  searches : List RunSearch
  submitted : Option String

namespace FileSearch

/-- `initState`. -/
def opened (connected : Bool) : FileSearch where
  toFileManager := .opened connected
  query := ""
  searchDebounce := none
  searchHits := []
  searching := false
  searches := []
  submitted := none

/-- The end of `_runSearch`. -/
def showHits (hits : List SearchHit) (fs : FileSearch) : FileSearch :=
  if !fs.mounted then fs else { fs with searchHits := hits, searching := false }

/-- The loop of `_runSearch`, up to its next listing or to the end. -/
def scan (s : RunSearch) (fs : FileSearch) : FileSearch :=
  if s.goesOn fs.searchMode then { fs with searches := fs.searches ++ [s.ask fs.currentPath] }
  else fs.showHits s.hits

/-- `_runSearch`. -/
def runSearch (needle : String) (fs : FileSearch) : FileSearch :=
  { fs with searching := true, submitted := some needle }.scan (.start fs.currentPath needle)

/-- `_runSearch` goes on with a listing. Where it failed there is nothing to look at. -/
def resume (lower : String → String) (s : RunSearch) (result : Option (List FtEntry))
    (fs : FileSearch) : FileSearch :=
  fs.scan (s.read lower fs.searchMode (result.getD []))

/-- `_exitSearch`, as far as it goes beyond `_searchMode`. -/
def clearSearch (fs : FileSearch) : FileSearch :=
  { fs with searchDebounce := none, query := "", searchHits := [], searching := false }

/-- `_onSearchChanged`. -/
def onSearchChanged (query : String) (fs : FileSearch) : FileSearch :=
  if (trimQuery query).isEmpty then
    { fs with query := query, searchDebounce := none, searchHits := [], searching := false }
  else { fs with query := query, searchDebounce := some query }

/-- What an event of the screen does to the search. -/
def onScreen (e : FileManager.Event) (fs : FileSearch) : FileSearch :=
  match e with
  | .enterSearch => { fs with searchHits := [] }
  | .exitSearch => fs.clearSearch
  | .navigate _ => if fs.searchMode then fs.clearSearch else fs
  | .dispose => { fs with searchDebounce := none }
  | _ => fs

/-- What can happen: an event of the screen, a change of the query, the end of the 300 ms, and the
answer to the listing of the `i`-th search. -/
inductive Event where
  | screen (e : FileManager.Event)
  | changed (query : String)
  | elapsed
  | answered (i : Nat) (result : Option (List FtEntry))
  deriving DecidableEq, Repr

/-- What an event does. -/
def next (lower : String → String) (e : Event) (fs : FileSearch) : Option FileSearch :=
  match e with
  | .screen e =>
    (FileManager.next e fs.toFileManager).map fun fm => { fs.onScreen e with toFileManager := fm }
  | .changed query => if fs.mounted then some (fs.onSearchChanged query) else none
  | .elapsed =>
    fs.searchDebounce.map fun query =>
      { fs with searchDebounce := none }.runSearch (lower (trimQuery query))
  | .answered i result =>
    fs.searches[i]?.map fun s =>
      { fs with searches := fs.searches.eraseIdx i }.resume lower s result

/-- The screen with its search over time. -/
def system (lower : String → String) : System FileSearch Event where
  init := fun fs => ∃ connected, fs = opened connected
  next := next lower

/-- What `_downloadHit` downloads. -/
def downloadPath (hit : SearchHit) : String := "/" ++ hit.relativePath

/-- What a tap on a directory opens. -/
def openPath (fs : FileSearch) (hit : SearchHit) : String :=
  FileManager.join fs.currentPath hit.relativePath

/-- The remote path that a tap on a hit is for: a file is downloaded, a directory is opened. -/
def tapPath (fs : FileSearch) (hit : SearchHit) : String :=
  if hit.entry.isFile then downloadPath hit else fs.openPath hit

end FileSearch

end Nek0.Dart
