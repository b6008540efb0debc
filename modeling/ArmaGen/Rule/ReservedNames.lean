/-!
# Reserved names

The names that have a meaning of their own unless a program assigns them: functions of the
language, constants, and commands for plotting.
-/

namespace ArmaGen

def reservedNames : List String := [
  "and", "or", "not", "all", "any", "isequal", "false", "true", "pi", "inf", "Inf", "nan", "NaN",
  "eye", "flipud", "length", "max", "min", "size", "chol", "transpose", "ctranspose", "abs",
  "sqrt", "nextpow2", "fft", "ifft", "hankel", "zeros", "ones", "round", "return", "rand",
  "floor", "clear", "close", "clc", "clf", "_conv_to", "_reshape", "interp1", "linspace",
  "varargins", "sum", "conj", "real", "imag", "tic", "toc", "diag", "disp", "error", "convmtx",
  "conv2", "figure", "cla", "show", "xlabel", "ylabel", "hold", "title", "plot", "imshow",
  "imagesc", "wigb", "colorbar", "xlim", "ylim", "caxis", "axis", "grid", "subplot", "colormap",
  "_splot"
]

end ArmaGen
