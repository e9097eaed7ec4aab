import FormCode.Binary64.Text
import FormCode.Text.CharLiteral
import FormCode.Text.Quoted
import FormCode.Value.Basic

/-! How values are written. Where a value can be read at all, it is written as the reader takes it:
items stand one space apart, map entries a comma and a space. -/
namespace FormCode

def Atom.render : Atom → List Char
  | .nil => ['n', 'i', 'l']
  | .bool true => ['t', 'r', 'u', 'e']
  | .bool false => ['f', 'a', 'l', 's', 'e']
  | .int n => Numeral.ofInt n.toInt
  | .float x => x.literal
  | .char c => Text.CharLiteral.encode c
  | .string s => Text.Quoted.encode s.toList
  | .keyword name => ':' :: name.toList
  | .symbol name => name.toList

/-- No reader syntax stands for a host object. -/
def HostObject.render (handle : HostObject) : List Char :=
  s!"#object[{handle.typeName} {handle.id}]".toList

namespace Value

mutual

def render : Value → List Char
  | .atom a => a.render
  | .object handle => handle.render
  | .list items => '(' :: (renderItems items ++ [')'])
  | .vector items => '[' :: (renderItems items ++ [']'])
  | .map entries => '\x7b' :: (renderEntries entries ++ ['\x7d'])

def renderItems : List Value → List Char
  | [] => []
  | [x] => render x
  | x :: xs => render x ++ ' ' :: renderItems xs

def renderEntries : List (Value × Value) → List Char
  | [] => []
  | [(k, v)] => render k ++ ' ' :: render v
  | (k, v) :: es => render k ++ ' ' :: (render v ++ ',' :: ' ' :: renderEntries es)

end

def text (v : Value) : String := .ofList v.render

end Value

end FormCode
