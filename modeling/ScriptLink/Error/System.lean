import ScriptLink.Text.Quoted

/-! # Faults of the operating system

    A fault is known by its number. Its message gives the number, the system's own words and, where a file was
    meant, the path. A path with a null character in it never reaches the system, nor does one below so many missing
    directories that the calls to make them cannot be nested, so these faults have no number. Nor has what keeps the
    name of a program from being told to the system. -/

namespace ScriptLink

/-- A fault reported by the operating system. -/
structure SystemFault where
  number : Int
  words : Text
  path : Option Text
deriving DecidableEq, Inhabited

namespace SystemFault

/-- A fault that concerns no file. -/
def plain (number : Int) (words : Text) : SystemFault :=
  ⟨number, words, none⟩

/-- The wording of a fault. -/
def message (fault : SystemFault) : Text :=
  let words := .ofString "[Errno " ++ .ofInt fault.number ++ .ofString "] " ++ fault.words
  match fault.path with
  | none => words
  | some path => words ++ .ofString ": " ++ Quoted.text path

/-- Whether the fault says only that nothing can be read or written just now. -/
def wouldBlock (fault : SystemFault) : Bool :=
  fault.number == 11 || fault.number == 114 || fault.number == 115

/-- Whether the fault says that the connection is no longer open on this side. -/
def badDescriptor (fault : SystemFault) : Bool :=
  fault.number == 9

end SystemFault

/-- What keeps a path from being used. -/
inductive FileProblem where
  | nullCharacter
  | missing
  | exists
  | notADirectory
  | isADirectory
  | nameTooLong
  /-- There are too many missing directories, one below the other. -/
  | nestedTooDeep
deriving DecidableEq, Inhabited

/-- The number and the words that the system has for a problem. -/
def FileProblem.system? : FileProblem → Option (Int × String)
  | .nullCharacter | .nestedTooDeep => none
  | .missing => some (2, "No such file or directory")
  | .exists => some (17, "File exists")
  | .notADirectory => some (20, "Not a directory")
  | .isADirectory => some (21, "Is a directory")
  | .nameTooLong => some (36, "File name too long")

/-- The words for a problem that never reaches the system. -/
def FileProblem.words : FileProblem → String
  | .nestedTooDeep => "maximum recursion depth exceeded"
  | _ => "embedded null byte"

/-- A problem with a path; messages call the path by `name`. -/
structure FileFault where
  problem : FileProblem
  name : Text
deriving DecidableEq, Inhabited

namespace FileFault

/-- The fault that the system reports, if the path reached it. -/
def system? (fault : FileFault) : Option SystemFault :=
  fault.problem.system?.map fun (number, words) => ⟨number, .ofString words, some fault.name⟩

/-- The wording of a fault. -/
def message (fault : FileFault) : Text :=
  (fault.system?.map SystemFault.message).getD (.ofString fault.problem.words)

end FileFault

/-- What keeps a name from being told to the system: a null character in it, or characters that no bytes stand for,
    from one place to another. -/
inductive NameFault where
  | nullCharacter
  | unencodable (character : CodePoint) (first last : Nat)
deriving DecidableEq, Inhabited

/-- The wording of a fault. -/
def NameFault.message : NameFault → Text
  | .nullCharacter => .ofString "embedded null byte"
  | .unencodable character first last =>
    .ofString "'utf-8' codec can't encode " ++
      (if first = last then .ofString "character '" ++ Quoted.numericEscape character ++ .ofString "' in position " ++
        .ofNat first
      else .ofString "characters in position " ++ .ofNat first ++ .ofString "-" ++ .ofNat last) ++
      .ofString ": surrogates not allowed"

/-- Whether a code point is half of a pair that stands alone. -/
def CodePoint.isSurrogate (c : CodePoint) : Bool := 0xD800 ≤ c.val ∧ c.val < 0xE000

/-- Whether a surrogate stands for a byte that is no character. -/
def CodePoint.hidesByte (c : CodePoint) : Bool := 0xDC80 ≤ c.val ∧ c.val ≤ 0xDCFF

/-- The first characters of a text that no bytes stand for, with their places from this one on. -/
def Text.unencodable? (place : Nat) : Text → Option NameFault
  | [] => none
  | c :: rest =>
    if c.isSurrogate ∧ ¬ c.hidesByte then
      some (.unencodable c place (place + (rest.takeWhile CodePoint.isSurrogate).length))
    else unencodable? (place + 1) rest

/-- What keeps a text from being told to the system as a name. It is made bytes first. -/
def Text.nameFault? (t : Text) : Option NameFault :=
  (t.unencodable? 0).or (if t.contains 0 then some .nullCharacter else none)

end ScriptLink
