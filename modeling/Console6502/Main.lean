import Console6502.CommandLine.Report

namespace Console6502.CommandLine

def unreadable (error : IO.Error) : String :=
  match error with
  | .noFileOrDirectory _ code details => details ++ " (os error " ++ toString code ++ ")"
  | .permissionDenied _ code details => details ++ " (os error " ++ toString code ++ ")"
  | .inappropriateType _ code details => details ++ " (os error " ++ toString code ++ ")"
  | error => toString error

def readImage (path : String) : IO (Except String (Array UInt8)) := do
  match ← (IO.FS.readBinFile path).toBaseIO with
  | .ok bytes => return .ok bytes.data
  | .error error => return .error (unreadable error)

end Console6502.CommandLine

open Console6502.CommandLine in
def main (arguments : List String) : IO UInt32 := do
  let report ←
    match Request.ofArguments arguments with
    | .error error => pure error.report
    | .ok request =>
      match request.rom with
      | none => pure (request.report (.ok #[]))
      | some path =>
        let contents ← readImage path
        pure (request.report contents)
  IO.print report.output
  IO.eprint report.errors
  return report.exit
