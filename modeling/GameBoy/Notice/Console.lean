import GameBoy.Notice.Basic

/-!
# Notices on a console

A console shows a message of sufficient level on one line: the level in bold and in its colour, the
part of the program that speaks, and the message.

* `Console.line?`: the line, or nothing for a message below the console's level.
-/

namespace GameBoy.Console

/-- The least important level that the console shows. -/
def least : Level := .info

/-- Whether the console shows messages of a level. -/
def shows (l : Level) : Bool := l.within least

/-- The code of a level's colour. -/
def colorCode : Level → String
  | .error => "31"
  | .warn => "33"
  | .info => "32"
  | .debug => "34"
  | .trace => "35"

/-- A level's name in bold and in its colour. -/
def heading (l : Level) : String := "\x1b[1;" ++ colorCode l ++ "m" ++ l.name ++ "\x1b[0m"

/-- The line that the console shows for a message from `speaker`. -/
def line? (l : Level) (speaker message : String) : Option String :=
  if shows l then some (heading l ++ " " ++ speaker ++ " > " ++ message ++ "\n") else none

end GameBoy.Console
