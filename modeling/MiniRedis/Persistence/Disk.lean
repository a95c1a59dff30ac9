import Mathlib.Data.Stream.Init
import MiniRedis.Foundation.Effect
import MiniRedis.Foundation.Text

/-!
# The files of the data directory

The two files are changed by three operations. The model takes each of them to happen as a whole,
or to raise `OSError` and leave no trace: `faults` are the outcomes of the coming ones. A `Disk`
keeps the operations in the order in which they happened, so that the files after a prefix of them
are those that a crash between two operations would leave. A log that ends in a part of a record is
the subject of `TornLog`.
-/

/-- The contents of the RDB file and of the AOF file, or `none` where there is no file. -/
structure Files where
  rdb : Option Bytes
  aof : Option Bytes
deriving DecidableEq

/-- A change of the files. -/
inductive FileEffect where
  | replaceRdb (content : String)
  | appendAof (line : String)
  | unlinkAof
deriving DecidableEq

namespace Files

/-- An empty data directory. -/
def empty : Files := ⟨none, none⟩

/-- The files after one change. -/
def apply (files : Files) : FileEffect → Files
  | .replaceRdb content => { files with rdb := some (Bytes.ofText content) }
  | .appendAof line => { files with aof := some (files.aof.getD [] ++ Bytes.ofText line) }
  | .unlinkAof => { files with aof := none }

/-- The files after some changes. -/
def applyAll (files : Files) (effects : List FileEffect) : Files := effects.foldl apply files

end Files

/-- The files at the start, what happened to them since, and which of the coming operations fail. -/
structure Disk where
  initial : Files
  effects : List FileEffect
  faults : Stream' Bool

namespace Disk

/-- The files as they are. -/
def files (disk : Disk) : Files := disk.initial.applyAll disk.effects

/-- A data directory of its own, where no operation fails. -/
def reliable (files : Files) : Disk := ⟨files, [], Stream'.const false⟩

/-- Change the files as a whole, or fail and leave them as they are. -/
def perform (effect : FileEffect) : Py Disk Unit := fun disk =>
  if disk.faults.head then (.error .osError, { disk with faults := disk.faults.tail })
  else (.ok (), { disk with effects := disk.effects ++ [effect], faults := disk.faults.tail })

/-- The disk after a change. -/
def changed (disk : Disk) (effect : FileEffect) : Disk :=
  { disk with effects := disk.effects ++ [effect] }

/-- Where no operation fails, the files are changed. -/
theorem perform_run {disk : Disk} (h : disk.faults = Stream'.const false) (effect : FileEffect) :
    perform effect disk = (.ok (), disk.changed effect) := by
  have hhead : disk.faults.head = false := by
    rw [h]
    rfl
  have htail : disk.faults.tail = disk.faults := by
    rw [h]
    rfl
  rw [perform, hhead, htail, if_neg Bool.false_ne_true]
  rfl

theorem files_changed (disk : Disk) (effect : FileEffect) :
    (disk.changed effect).files = disk.files.apply effect := by
  rw [changed, files, Files.applyAll, List.foldl_append]
  rfl

end Disk

namespace PyText

/-- `"\r\n"` and `"\r"` are read as `"\n"` from a text file. -/
def universalNewlines : List Char → List Char
  | '\r' :: '\n' :: rest => '\n' :: universalNewlines rest
  | '\r' :: rest => '\n' :: universalNewlines rest
  | c :: rest => c :: universalNewlines rest
  | [] => []

/-- `file.read()` of a text file, or `none` for a `UnicodeDecodeError`. -/
def readText (content : Bytes) : Option (List Char) :=
  (Bytes.toText? content).map fun text => universalNewlines text.toList

/-- The lines of a text file, without their ends. -/
def lines (text : List Char) : List (List Char) := text.splitOn '\n'

end PyText
