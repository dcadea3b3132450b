import ScriptLink.Environment.FileTree
import ScriptLink.Environment.Runtime
import ScriptLink.Error.Failure

/-! # The environment directory

    The script and the file that declares it as a module stand in a directory of their own below the first candidate
    where nothing is in the way; any other obstacle ends the search. The choice is remembered until a new one is asked
    for, and a failed new choice leaves the old one in place. -/

namespace ScriptLink

/-- The files of the machine, and the engine's directory among them. -/
structure Environment where
  files : FileTree
  /-- Where the directory may be, in order of preference. -/
  candidates : List Path
  /-- The directory that was chosen last. -/
  directory : Option Path
  /-- How many calls can be nested to make missing directories: of the thousand that can be nested altogether, those
  that the callers have left. -/
  room : Nat

namespace Environment

/-- The candidates where none are given: the home of programs' state, then the place for temporary files. -/
def candidatesOf (given : Option (List Path)) (stateHome temporary : Path) : List Path :=
  given.getD [stateHome, temporary]

/-- The engine's directory below a candidate. -/
def directoryBelow (candidate : Path) : Path :=
  candidate ++ [.ofString "jsbridge", .ofString "runtimes", Runtime.signature]

/-- The failure when no candidate will do. -/
def noDirectory : Failure :=
  .engine (.ofString "Could not find/create env dir")

/-- Whether a fault only says that another candidate has to be tried. -/
def isObstruction (fault : FileFault) : Bool :=
  fault.problem == .exists || fault.problem == .notADirectory

/-- The directory below the first candidate where it can be made, and the files after all attempts. -/
def chooseAmong (room : Nat) (files : FileTree) : List Path → Except Failure Path × FileTree
  | [] => (.error noDirectory, files)
  | candidate :: rest =>
    match files.makeDirectories room (directoryBelow candidate) with
    | (files, none) => (.ok (directoryBelow candidate), files)
    | (files, some fault) => if isObstruction fault then chooseAmong room files rest else (.error (.file fault), files)

/-- The environment with a directory chosen afresh. -/
def choose (env : Environment) : Except Failure Path × Environment :=
  match chooseAmong env.room env.files env.candidates with
  | (.ok directory, files) => (.ok directory, { env with files := files, directory := some directory })
  | (.error failure, files) => (.error failure, { env with files := files })

/-- The directory: the remembered one, unless there is none or a new choice is asked for. -/
def ensure (env : Environment) (anew : Bool) : Except Failure Path × Environment :=
  match env.directory, anew with
  | some directory, false => (.ok directory, env)
  | _, _ => env.choose

/-- The text that declares the script as a module. -/
def declaration : Text :=
  .ofString "\x7b\n    \"name\": \"jsbridge-runtime\",\n    \"private\": true,\n    \"type\": \"module\"\n\x7d"

/-- The environment with a file of the directory written anew. -/
def install (env : Environment) (path : Path) (content : List UInt8) : Except Failure Unit × Environment :=
  match env.files.write path content with
  | .ok files => (.ok (), { env with files := files })
  | .error fault => (.error (.file fault), env)

/-- The path of the declaration in a directory. -/
def declarationPath (directory : Path) : Path := directory ++ [.ofString "package.json"]

/-- The path of the script in a directory. -/
def scriptPath (directory : Path) : Path := directory ++ [.ofString "index.js"]

/-- The directory with both files written anew, the declaration first. -/
def create (env : Environment) : Except Failure Path × Environment :=
  match env.ensure false with
  | (.error failure, env) => (.error failure, env)
  | (.ok directory, env) =>
    match env.install (declarationPath directory) (Utf8.encode declaration) with
    | (.error failure, env) => (.error failure, env)
    | (.ok (), env) =>
      match env.install (scriptPath directory) Runtime.bytes with
      | (.error failure, env) => (.error failure, env)
      | (.ok (), env) => (.ok directory, env)

end Environment

end ScriptLink
