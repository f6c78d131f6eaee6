import Archivist.CommandLine.Output
import Archivist.Exchange.Failure
set_option autoImplicit false

namespace Archivist.Exchange

abbrev Fields := List (String × Json)

def fault : Fault TransferError → Fields
  | .malformed => [("error", .text "Parse")]
  | .refused e => [("error", .text "Parse"), ("message", .text e.message)]

def archiveFault (e : ArchiveError) : Fields :=
  [("error", .text e.name), ("message", .text e.message)]

def loadError : LoadError → Fields
  | .io e => [("error", .text "Io"), ("message", .text e.message)]
  | .malformed => fault .malformed
  | .refused e => fault (.refused e)
  | .unknownEnding ending =>
    [("error", .text "Other"), ("message", .text (LoadError.unknownEnding ending).message)]
  | .invalid f => archiveFault (.config f)

def loadFailure (f : Snapshot.LoadFailure) : Fields :=
  loadError f.cause ++ [("context", .text f.context)]

def commandFailure : CommandLine.CommandFailure → Fields
  | .settings e => loadError e
  | .snapshot f => loadFailure f
  | .noSection name =>
    [("error", .text "Other"),
      ("message", .text (CommandLine.CommandFailure.noSection name).message)]
  | .archive e => archiveFault e

def argumentFault : CommandLine.ArgumentFault → String
  | .help => "DisplayHelp"
  | .nothingGiven => "DisplayHelpOnMissingArgumentOrSubcommand"
  | .missingRequired => "MissingRequiredArgument"
  | .invalidValue => "InvalidValue"
  | .unknownArgument => "UnknownArgument"
  | .repeated => "ArgumentConflict"
  | .unknownCommand => "InvalidSubcommand"
  | .unneededValue => "TooManyValues"
  | .valueOfWrongForm => "ValueValidation"

end Archivist.Exchange
