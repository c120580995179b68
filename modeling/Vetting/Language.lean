import Vetting.Fault

/-!
# Languages

The languages whose packages are vetted. Docker and Vagrant images are listed among them because
they too are published in registries.
-/

namespace Vetting

inductive Language where
  | python
  | javascript
  | ruby
  | java
  | csharp
  | php
  | docker
  | vagrant
deriving BEq, DecidableEq, Inhabited

namespace Language

def all : List Language := [.python, .javascript, .ruby, .java, .csharp, .php, .docker, .vagrant]

def word : Language → String
  | .python => "python"
  | .javascript => "javascript"
  | .ruby => "ruby"
  | .java => "java"
  | .csharp => "csharp"
  | .php => "php"
  | .docker => "docker"
  | .vagrant => "vagrant"

def ofWord? (s : String) : Option Language := all.find? fun l => l.word == s

def ofWord (s : String) : Except Fault Language :=
  match ofWord? s with
  | some l => .ok l
  | none => .error (.cause .badValue)

def shownKey (l : Language) : String := "<LanguageEnum." ++ l.word ++ ": '" ++ l.word ++ "'>"

end Language

end Vetting
