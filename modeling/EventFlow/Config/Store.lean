import EventFlow.Config.Document
import EventFlow.Config.Format
import EventFlow.Error
import EventFlow.Files

/-!
Configurations in files. What is loaded is valid; what is saved need not be.
-/

namespace EventFlow.PipelineConfig

variable [Formats]

/-- The configuration that the text of a file describes, whether it is valid or not. -/
def parse? (format : Format) (text : String) : Option PipelineConfig :=
  (Formats.read? format text).bind (ofNode? format.isExact)

def ofContent (path : String) : Except FileError String → Except ConfigError PipelineConfig
  | .error e => .error (.unreadable path e)
  | .ok text =>
    match parse? (Format.ofPath path) text with
    | none => .error (.malformed path)
    | some c =>
      match c.validate with
      | .error e => .error e
      | .ok () => .ok c

def load (files : Files) (path : String) : Except ConfigError PipelineConfig :=
  ofContent path (files.read path)

def loadOrDefault (files : Files) (path : String) : PipelineConfig :=
  match load files path with
  | .ok c => c
  | .error _ => {}

def text? (format : Format) (c : PipelineConfig) : Option String := Formats.write? format c.node

/-- Writes a configuration to a file. The directories above it are made first, and stay even if
nothing is written. -/
def save (c : PipelineConfig) (files : Files) (path : String) : Files × Except AppError Unit :=
  let parts := (Path.parts path).dropLast
  let prepared := if files.leadsSomewhere parts then .ok files else files.makeDirectories [] parts
  match prepared with
  | .error e => (files, .error (.config (.noDirectory e)))
  | .ok files =>
    match c.text? (Format.ofPath path) with
    | none => (files, .error (.serialization "number out of range"))
    | some text =>
      match files.write path text with
      | .error e => (files, .error (.config (.unwritable e)))
      | .ok files => (files, .ok ())

end EventFlow.PipelineConfig
