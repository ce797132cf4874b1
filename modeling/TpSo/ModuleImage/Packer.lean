import TpSo.Library.Bytes

set_option autoImplicit false

/-! # Packing modules into the kernel image (`ModulePacker/main.c`)

`buildImage` appends to one file the kernel binary, the number of modules, and for each module its
size and its contents. A file is its bytes; a stream that is read is what is left of them and the
end-of-file flag, which `fread` sets when it comes up short. -/

namespace TpSo.ModuleImage

open Bytes

def BUFFER_SIZE : Nat := 128

/-- `array_t`: the readable files of the command line, the kernel first. Their number is an
    `int`. -/
structure FileArray where
  kernel : List UInt8
  modules : List (List UInt8)
  length_lt : modules.length + 1 < 2 ^ 31

/-- A `FILE` opened for reading. -/
structure Source where
  rest : List UInt8
  eof : Bool

def fopen (contents : List UInt8) : Source := ⟨contents, false⟩

/-- `fread(buffer, 1, n, source)`: the bytes read. -/
def fread (source : Source) (n : Nat) : List UInt8 × Source :=
  (source.rest.take n, ⟨source.rest.drop n, source.eof || source.rest.length < n⟩)

/-- `write_file`, appending to `target`. -/
def writeFile (target : List UInt8) (source : Source) : List UInt8 :=
  if source.eof then target
  else writeFile (target ++ (fread source BUFFER_SIZE).1) (fread source BUFFER_SIZE).2
  termination_by source.rest.length + if source.eof then 0 else 1
  decreasing_by
    simp only [fread, BUFFER_SIZE, List.length_drop, Bool.or_eq_true]
    split_ifs <;> grind

/-- `write_size`: `st_size` as a `uint32_t`. -/
def writeSize (target contents : List UInt8) : List UInt8 :=
  target ++ toLE 4 (contents.length % 2 ^ 32)

/-- The loop of `buildImage` over the modules that are left. -/
def writeModules : List UInt8 → List (List UInt8) → List UInt8
  | target, [] => target
  | target, contents :: files =>
    writeModules (writeFile (writeSize target contents) (fopen contents)) files

/-- `buildImage`: the image written, if the target file can be created. -/
def buildImage (fileArray : FileArray) (created : Bool) : Option (List UInt8) :=
  if created then
    let target := writeFile [] (fopen fileArray.kernel)
    let extraBinaries := fileArray.modules.length
    some (writeModules (target ++ toLE 4 extraBinaries) fileArray.modules)
  else none

/-! ## What is written -/

/-- `write_file` appends what is left of the source, whatever its length. -/
theorem writeFile_eq (target : List UInt8) (source : Source) (h : source.eof = false) :
    writeFile target source = target ++ source.rest := by
  induction target, source using writeFile.induct with
  | case1 target source heof => rw [h] at heof; cases heof
  | case2 target source _ ih =>
    rw [writeFile, if_neg (by simp [h])]
    by_cases hshort : source.rest.length < BUFFER_SIZE
    · have hall : (fread source BUFFER_SIZE).1 = source.rest := List.take_of_length_le hshort.le
      rw [writeFile, if_pos (by simp [fread, hshort]), hall]
    · rw [ih (by simp [fread, hshort, h])]
      simp only [fread, List.append_assoc, List.take_append_drop]

/-- The size and the contents of a module. -/
def packed (contents : List UInt8) : List UInt8 := toLE 4 (contents.length % 2 ^ 32) ++ contents

theorem writeModules_eq (target : List UInt8) (files : List (List UInt8)) :
    writeModules target files = target ++ files.flatMap packed := by
  induction files generalizing target with
  | nil => simp [writeModules]
  | cons contents files ih =>
    rw [writeModules, ih, writeFile_eq _ _ rfl, List.flatMap_cons]
    simp only [writeSize, fopen, packed, List.append_assoc]

/-- What follows the kernel in the image. -/
def payload (modules : List (List UInt8)) : List UInt8 :=
  toLE 4 modules.length ++ modules.flatMap packed

theorem buildImage_eq {fileArray : FileArray} {created : Bool} {image : List UInt8}
    (h : buildImage fileArray created = some image) :
    image = fileArray.kernel ++ payload fileArray.modules := by
  simp only [buildImage] at h
  split at h
  · cases h
    rw [writeModules_eq, writeFile_eq _ _ rfl]
    simp only [fopen, payload, List.nil_append, List.append_assoc]
  · cases h

end TpSo.ModuleImage
