import LightMarkup.CommandLine.Basic

/-!
The program: a command line that is run on the files of the working directory.
-/

namespace LightMarkup

namespace CommandLine

/-- The names that lead from the working directory to a file under it. -/
def relativeNames (directory path : List String) : List Text :=
  (path.drop directory.length).map Text.ofString

/-- The files under the working directory with their contents. -/
def readFiles : IO FileTree := do
  let directory ← IO.currentDir
  let paths ← directory.walkDir
  let entries ← paths.toList.mapM fun path => do
    let names := relativeNames directory.components path.components
    if ← path.isDir then pure (names, none)
    else
      let content ← IO.FS.readBinFile path
      pure (names, some content.toList)
  pure ⟨Text.ofString (directory.fileName.getD ""), entries⟩

def writeFile (names : List Text) (content : Bytes) : IO Unit :=
  IO.FS.writeBinFile (Text.toString (Text.join "/" names)) ⟨content.toArray⟩

def faultMessage (fault : Fault) : String :=
  Text.toString fault.message

end CommandLine

end LightMarkup

open LightMarkup in
def main (words : List String) : IO UInt32 := do
  let files ← CommandLine.readFiles
  match CommandLine.run (words.map Text.ofString) files with
  | .error fault =>
    (← IO.getStderr).putStrLn (CommandLine.faultMessage fault)
    pure 1
  | .ok session =>
    for (names, content) in files.changedSince session.files do
      CommandLine.writeFile names content
    (← IO.getStderr).putStr (Text.toString session.errors)
    (← IO.getStdout).putStr (Text.toString session.output)
    pure session.exitCode.toUInt32
