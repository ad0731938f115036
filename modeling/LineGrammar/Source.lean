import LineGrammar.Loader
import LineGrammar.Text.Lines

/-!
Reading a grammar from the lines of a text or from the bytes of a file. The file's name only labels
locations. What is read has not been checked.
-/

namespace LineGrammar

def Loader.run (file : Option String) (lines : List (Option (List Char))) :
    EStateM.Result GrammarError Loader Unit :=
  (Loader.readLines 1 lines).run (Loader.start file)

namespace Grammar

-- Lines without a text are no UTF-8.
def ofLines (file : Option String) (lines : List (Option (List Char))) :
    Except GrammarError Grammar :=
  match Loader.run file lines with
  | .ok () loader  => loader.finish
  | .error error _ => .error error

def notesOfLines (file : Option String) (lines : List (Option (List Char))) : List Note :=
  match Loader.run file lines with
  | .ok () loader   => loader.notes
  | .error _ loader => loader.notes

def sourceLines (source : List UInt8) : List (Option (List Char)) :=
  (byteLines source).map decode

def ofBytes (file : Option String) (source : List UInt8) : Except GrammarError Grammar :=
  ofLines file (sourceLines source)

def notesOfBytes (file : Option String) (source : List UInt8) : List Note :=
  notesOfLines file (sourceLines source)

end Grammar
end LineGrammar
