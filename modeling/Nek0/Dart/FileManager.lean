import Nek0.Lib.System

/-!
# `Nek0.Dart.FileManager`: `FileManagerScreen`

`lib/screens/file_manager_screen.dart`, as far as the directory and its entries go. A listing is
asked for the directory of that moment and answered later. `requests` are the directories of the
listings that are still to be answered, in any order. `listed` is there for the specifications: the
listings that were answered.

Left out: the order of the entries, the search itself, and the texts.
-/

set_option autoImplicit false

namespace Nek0.Dart

open Nek0.Lib (System)

/-- `FtEntry`. -/
structure FtEntry where
  name : String
  size : Int
  datetime : Int
  isFile : Bool
  deriving DecidableEq, Repr

/-- `isParent`. -/
def FtEntry.isParent (e : FtEntry) : Bool := e.name == ".."

/-- `_FileManagerScreenState`. -/
structure FileManager where
  connected : Bool
  mounted : Bool
  currentPath : String
  entries : List FtEntry
  loading : Bool
  searchMode : Bool
  requests : List String
  listed : List (String × List FtEntry)

namespace FileManager

/-- `_join`. -/
def join (base name : String) : String :=
  if base == "/" || base.isEmpty then "/" ++ name else base ++ "/" ++ name

/-- `_refresh`, up to its `await`. -/
def refresh (fm : FileManager) : FileManager :=
  if !fm.connected then fm
  else { fm with loading := true, requests := fm.requests ++ [fm.currentPath] }

/-- `initState`. -/
def opened (connected : Bool) : FileManager :=
  { connected := connected
    mounted := true
    currentPath := "/"
    entries := []
    loading := true
    searchMode := false
    requests := []
    listed := [] : FileManager }.refresh

/-- `_refresh` goes on with a listing. -/
def listingDone (fm : FileManager) (entries : List FtEntry) : FileManager :=
  if !fm.mounted then fm
  else
    { fm with
        entries := entries.filter fun e => !e.isParent && e.name != "."
        loading := false }

/-- `_refresh` goes on after a failure. -/
def listingFailed (fm : FileManager) : FileManager :=
  if !fm.mounted then fm else { fm with loading := false }

/-- `_navigate`. -/
def navigate (fm : FileManager) (path : String) : FileManager :=
  { fm with currentPath := path, searchMode := false }.refresh

/-- What can happen. A button, a tap or a finished operation navigates or refreshes. A new widget
can tell that the connection is there or gone. -/
inductive Event where
  | navigate (path : String)
  | refresh
  | listingDone (path : String) (entries : List FtEntry)
  | listingFailed (path : String)
  | enterSearch
  | exitSearch
  | connected (b : Bool)
  | dispose
  deriving DecidableEq, Repr

/-- What an event does. Only a listing that was asked for is answered. -/
def next (e : Event) (fm : FileManager) : Option FileManager :=
  match e with
  | .navigate path => some (fm.navigate path)
  | .refresh => some fm.refresh
  | .listingDone path entries =>
    -- The answer is to one of the requests that are under way.
    if path ∈ fm.requests then
      some ({ fm with
        requests := fm.requests.erase path
        listed := fm.listed ++ [(path, entries)] }.listingDone entries)
    else none
  | .listingFailed path =>
    if path ∈ fm.requests then
      some { fm with requests := fm.requests.erase path }.listingFailed
    else none
  | .enterSearch => some { fm with searchMode := true }
  | .exitSearch => some { fm with searchMode := false }
  | .connected b => some { fm with connected := b }
  | .dispose => some { fm with mounted := false }

/-- The screen over time. -/
def system : System FileManager Event where
  init := fun fm => ∃ connected, fm = opened connected
  next := next

end FileManager

end Nek0.Dart
