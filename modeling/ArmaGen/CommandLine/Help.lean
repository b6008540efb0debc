import ArmaGen.Text.Words

/-!
# Help

The text that explains the command line.
-/

namespace ArmaGen

def usageText : String := joinWith "\n" [
  "usage: mconvert.py [-h] [-t] [-T] [-s] [-r] [-d] [-c] [-l LINE] [-o] [-n]",
  "                   filename"
]

def purposeText : String := joinWith "\n" [
  "The toolbox frontend of the Matlab2cpp library.  Use this to try to do automatic",
  "and semi-automatic translation.  The program will create files with the same",
  "name as the input, but with various extra extensions.  Scripts will receive the",
  "extension `.cpp`, headers and modules `.hpp`.  A file containing data type and",
  "header information will be stored in a `.py` file. Any errors will be stored in",
  "`.log`."
]

def switchesText : String := joinWith "\n" [
  "options:",
  "  -h, --help            show this help message and exit",
  "  -t, --tree            Print the underlying node tree. Each line in the",
  "                        output represents a node and is formated as follows:",
  "                        `<codeline> <position> <class> <backend> <datatype>",
  "                        <name> <translation>` The indentation represents the",
  "                        tree structure.",
  "  -T, --tree-full       Same as -t, but the full node tree, but include meta-",
  "                        nodes.",
  "  -s, --suggest         Automatically populate the `<filename>.py` file with",
  "                        datatype with suggestions if possible.",
  "  -r, --reset           Ignore the content of `<filename>.py` and make a fresh",
  "                        translation.",
  "  -d, --disp            Print out the progress of the translation process.",
  "  -c, --comments        Strip away all the comments in the output of the",
  "                        translation.",
  "  -l LINE, --line LINE  Only display code related to code line number",
  "                        `<line>`.",
  "  -o, --original        Include original matlab code line as comment before",
  "                        C++ translation",
  "  -n, --nargin          Remove if and switch braches which use nargin variable"
]

def helpText : String := joinWith "\n\n" [
  usageText,
  purposeText,
  "positional arguments:\n  filename              File containing valid Matlab code.",
  switchesText
]

end ArmaGen
