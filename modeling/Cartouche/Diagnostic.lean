import Cartouche.Text.Template
import Cartouche.Text.Utf8

/-!
# Errors and diagnostics

What can end a rendering is a `RenderError`; what concerns a single feature and is skipped is a
`Diagnostic`. Both hold the cause, and their texts are made from it.
-/

namespace Cartouche

/-- Why something cannot be encoded. -/
inductive EncodeError where
  | nonFiniteCoordinate
  | invalidName (name : String)
  | write (fault : Utf8Fault)
deriving DecidableEq, Repr

/-- What is said about the error. -/
def EncodeError.message : EncodeError → String
  | .nonFiniteCoordinate => "geometry contains a non-finite coordinate"
  | .invalidName name => "'" ++ name ++ "' is not a valid element name"
  | .write fault => "failed to write markup: " ++ fault.message

/-- Why a source gives no features. -/
inductive SourceError where
  | openFailed (reason : String)
  | readFailed (reason : String)
deriving DecidableEq, Repr

/-- What is said about the error. -/
def SourceError.message : SourceError → String
  | .openFailed reason => "failed to open feature source: " ++ reason
  | .readFailed reason => "failed to read feature: " ++ reason

/-- Why a label has no text. -/
inductive LabelError where
  | template (error : TemplateError)
  | other (reason : String)
deriving DecidableEq, Repr

/-- What is said about the error. -/
def LabelError.message (error : LabelError) : String :=
  "failed to build label: " ++
    match error with
    | .template error => error.message
    | .other reason => reason

/-- Why a rendering ended without a document. -/
inductive RenderError where
  | source (error : SourceError)
  | encode (error : EncodeError)
  | aborted
deriving DecidableEq, Repr

/-- What is said about the error. -/
def RenderError.message : RenderError → String
  | .source error => error.message
  | .encode error => error.message
  | .aborted => "rendering aborted"

/-- What was skipped of a feature, and why. -/
inductive Skipped where
  | attribute (error : EncodeError)
  | geometry (error : EncodeError)
  | name (error : LabelError)
  | description (error : LabelError)
deriving DecidableEq, Repr

namespace Skipped

/-- The part of the feature. -/
def stage : Skipped → String
  | .attribute _ => "Attribute"
  | .geometry _ => "Geometry"
  | .name _ => "Name"
  | .description _ => "Description"

/-- Why it was skipped. -/
def message : Skipped → String
  | .attribute error | .geometry error => error.message
  | .name error | .description error => error.message

end Skipped

/-- A part of a feature that is missing from a document. -/
structure Diagnostic where
  featureId : String
  skipped : Skipped
deriving DecidableEq, Repr

/-- The diagnostic in one line. -/
def Diagnostic.display (d : Diagnostic) : String :=
  "feature " ++ d.featureId ++ ": " ++ d.skipped.stage ++ " skipped: " ++ d.skipped.message

/-- Markup with what is missing from it. -/
structure Document where
  markup : String
  diagnostics : List Diagnostic
deriving DecidableEq, Repr

end Cartouche
