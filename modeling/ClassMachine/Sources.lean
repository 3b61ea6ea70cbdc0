import ClassMachine.Listing.Scan
import ClassMachine.Normal
import ClassMachine.Table

/-!
# Sources of listings

A source offers listings by name. Its classes are read in ascending order of
the names, and the first one that fails ends the whole reading.
-/

namespace ClassMachine

/-- Reads and normalizes one listing. -/
def readListing (text : String) : Except FormatError ClassCode := do
  (← Listing.parse text).normalize

/-- Why a source cannot be read. -/
inductive SourceError where
  | badListing (name : String) (cause : FormatError)
  /-- A source that does not give a text. -/
  | unavailable (name reason : String)
  /-- A source that does not give its names. -/
  | unlisted (reason : String)
deriving DecidableEq, Repr

namespace SourceError

def message : SourceError → String
  | .badListing name cause => s!"failed to translate class {name}: {cause.message}"
  | .unavailable name reason => s!"class source failed for {name}: {reason}"
  | .unlisted reason => reason

/-- The messages of the errors behind an error, outermost first. -/
def causes : SourceError → List String
  | .badListing _ cause => cause.message :: cause.causes
  | _ => []

end SourceError

/-- The class of one listing of a source. -/
def readNamed (text : String → Except SourceError String) (name : String) :
    Except SourceError ClassCode := do
  (readListing (← text name)).mapError (.badListing name)

/-- Names in ascending order. -/
def ascending (names : List String) : List String :=
  names.mergeSort fun a b => decide (a ≤ b)

/-- Listings held in memory; of two under the same name the later one counts. -/
structure Sources where
  listings : Table String String

namespace Sources

def empty : Sources :=
  ⟨.empty⟩

def insert (s : Sources) (name text : String) : Sources :=
  ⟨s.listings.insert name text⟩

/-- Listings inserted in order. -/
def ofList (listings : List (String × String)) : Sources :=
  listings.foldl (fun s (name, text) => s.insert name text) empty

/-- The names in ascending order. -/
def names (s : Sources) : List String :=
  ascending (s.listings.entries.map Prod.fst)

/-- The listing of a name. -/
def text (s : Sources) (name : String) : Except SourceError String :=
  match s.listings.find? name with
  | some text => .ok text
  | none => .error (.unavailable name "no listing registered")

/-- The classes of all listings. -/
def read (s : Sources) : Except SourceError (List ClassCode) :=
  s.names.mapM (readNamed s.text)

end Sources

end ClassMachine
