import BuildScript.Text.Bytes

/-!
# What stands around a script

The header defines the functions that a script calls; the footer reports the result of the job and
exits with it.
-/

namespace BuildScript.Frame

/-- Lines with a line feed between each two. -/
def ofLines (lines : List String) : Bytes := Bytes.join [10] (lines.map bytes)

/-- The header of a script that is given none. -/
def defaultHeader : Bytes :=
  ofLines
    ["#!/bin/bash",
      "source /etc/profile",
      "",
      "ANSI_RED=\"\\033[31;1m\"",
      "ANSI_GREEN=\"\\033[32;1m\"",
      "ANSI_RESET=\"\\033[0m\"",
      "ANSI_CLEAR=\"\\033[0K\"",
      "",
      "TRAVIS_TEST_RESULT=0",
      "",
      "travis_terminate() \x7b",
      "  exit $1",
      "\x7d",
      "",
      "travis_fold() \x7b",
      "  local action=$1",
      "  local name=$2",
      "  echo -en \"travis_fold:$\x7baction\x7d:$\x7bname\x7d\\r$\x7bANSI_CLEAR\x7d\"",
      "\x7d",
      "",
      "travis_cmd() \x7b",
      "  local cmd=$1 assert echo display result",
      "  shift",
      "",
      "  while true; do",
      "    case \"$1\" in",
      "      --assert) assert=true; shift ;;",
      "      --echo) echo=true; shift ;;",
      "      --display=*) display=$\x7b1#--display=\x7d; shift ;;",
      "      *) break ;;",
      "    esac",
      "  done",
      "",
      "  if [[ -n \"$echo\" ]]; then",
      "    echo -e \"\\$ $\x7bdisplay:-$cmd\x7d\"",
      "  fi",
      "",
      "  eval \"$cmd\"",
      "  result=$?",
      "",
      "  if [[ $result -ne 0 ]]; then",
      "    if [[ -n \"$assert\" ]]; then",
      "      echo -e \"$\x7bANSI_RED\x7dThe command \\\"$cmd\\\" failed and exited with $result.$\x7bANSI_RESET\x7d\"",
      "      travis_terminate 2",
      "    fi",
      "",
      "    TRAVIS_TEST_RESULT=$result",
      "  fi",
      "",
      "  return $result",
      "\x7d",
      "",
      ""]

/-- The footer of a script that is given none. -/
def defaultFooter : Bytes :=
  ofLines
    ["",
      "if [[ $TRAVIS_TEST_RESULT -eq 0 ]]; then",
      "  echo -e \"$\x7bANSI_GREEN\x7dDone. Your build exited with 0.$\x7bANSI_RESET\x7d\"",
      "else",
      "  echo -e \"$\x7bANSI_RED\x7dDone. Your build exited with $TRAVIS_TEST_RESULT.$\x7bANSI_RESET\x7d\"",
      "fi",
      "",
      "travis_terminate $TRAVIS_TEST_RESULT",
      ""]

end BuildScript.Frame
