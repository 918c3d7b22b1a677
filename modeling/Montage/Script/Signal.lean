import Montage.Script.Arithmetic

/-!
# Signals

* `Signal.number?`: the number of a signal given by name or number.
* `Signal.description`: what the shell says of a program that a signal ended.
-/

namespace Montage.Signal

/-- The names of the signals from the first on. -/
def names : List String :=
  ["HUP", "INT", "QUIT", "ILL", "TRAP", "ABRT", "BUS", "FPE", "KILL", "USR1", "SEGV", "USR2", "PIPE",
    "ALRM", "TERM", "16", "CHLD", "CONT", "STOP", "TSTP", "TTIN", "TTOU", "URG", "XCPU", "XFSZ",
    "VTALRM", "PROF", "WINCH", "IO", "PWR", "SYS", "32", "33"]

/-- The greatest number of a signal. -/
def last : Nat := 64

/-- The number under which an action for the end of a script is kept. -/
def atExit : Nat := 0

/-- The name of a signal. Those behind the named ones are counted from the nearer end. -/
def name (signal : Nat) : String :=
  let counted (start sign : String) (n : Nat) : String :=
    if n = 0 then start else start ++ sign ++ Decimal.ofInt n
  if signal = atExit then "EXIT"
  else if h : signal - 1 < names.length then names[signal - 1]
  else if signal < 50 then counted "RTMIN" "+" (signal - 34)
  else counted "RTMAX" "-" (last - signal)

/-- The number of a signal, given by its number or by its name in any case. -/
def number? (text : String) : Option Nat :=
  let digits := text.toList
  if !digits.isEmpty && digits.all Char.isDigit then
    let n := Decimal.ofDigits digits
    if n ≤ last then some n else none
  else
    (List.range (last + 1)).find? fun signal => Text.lower (name signal).toList = Text.lower digits

def interrupt : Nat := 2

def kill : Nat := 9

def segmentation : Nat := 11

def pipe : Nat := 13

def termination : Nat := 15

def cpuTime : Nat := 24

/-- Whether a signal is passed over by a process that does nothing about it. -/
def isHarmless (signal : Nat) : Bool := [0, 17, 18, 19, 20, 21, 22, 23, 28].contains signal

/-- Whether a process can do nothing about a signal. -/
def isFinal (signal : Nat) : Bool := signal = kill || signal = 19

def description (signal : Nat) : String :=
  match signal with
  | 1 => "Hangup"
  | 2 => "Interrupt"
  | 3 => "Quit"
  | 4 => "Illegal instruction"
  | 5 => "Trace/breakpoint trap"
  | 6 => "Aborted"
  | 7 => "Bus error"
  | 8 => "Floating point exception"
  | 9 => "Killed"
  | 10 => "User defined signal 1"
  | 11 => "Segmentation fault"
  | 12 => "User defined signal 2"
  | 13 => "Broken pipe"
  | 14 => "Alarm clock"
  | 15 => "Terminated"
  | 16 => "Stack fault"
  | 24 => "CPU time limit exceeded"
  | 25 => "File size limit exceeded"
  | 26 => "Virtual timer expired"
  | 27 => "Profiling timer expired"
  | 29 => "I/O possible"
  | 30 => "Power failure"
  | 31 => "Bad system call"
  | n => "Real-time signal " ++ Decimal.ofInt ((n : Int) - 34)

end Montage.Signal
